import Codewith.Shell.SafeCommand

/-!
# Bundled options

`rg` and `base64` read `-xyz` as the options `-x`, `-y` and `-z`.  The rules for safe commands
compare whole arguments, so a bundle can hide an option that they refuse on its own.
-/

namespace Codewith.Shell

open Lib

/-- Single-letter options in one argument.  Only the last one may have a value, which may follow
it directly. -/
structure OptionBundle where
  flags : List Char
  last : Char
  value : Text
  flags_ne_nil : flags ≠ []
  dash_not_mem : '-' ∉ flags ++ [last]

namespace OptionBundle

def letters (bundle : OptionBundle) : List Char := bundle.flags ++ [bundle.last]

def word (bundle : OptionBundle) : Text := '-' :: (bundle.letters ++ bundle.value)

/-- The letters as separate options. -/
def separated (bundle : OptionBundle) : List Text :=
  bundle.flags.map (fun letter => ['-', letter]) ++ ['-' :: bundle.last :: bundle.value]

/-- The first two letters of a bundle. -/
theorem exists_word (bundle : OptionBundle) :
    ∃ first second rest, bundle.word = '-' :: first :: second :: rest ∧
      bundle.flags.head? = some first ∧ first ≠ '-' := by
  have hdash := bundle.dash_not_mem
  rcases hflags : bundle.flags with _ | ⟨first, flags⟩
  · exact absurd hflags bundle.flags_ne_nil
  · rw [hflags] at hdash
    have hfirst : first ≠ '-' := by
      rintro rfl
      simp at hdash
    rcases flags with _ | ⟨second, flags⟩
    · exact ⟨first, bundle.last, bundle.value, by simp [word, letters, hflags], rfl, hfirst⟩
    · exact ⟨first, second, flags ++ [bundle.last] ++ bundle.value,
        by simp [word, letters, hflags], rfl, hfirst⟩

end OptionBundle

/-! ### Ripgrep -/

theorem isSafe_ripgrep {targetIsLinux : Bool} {cmd0 : Text} {args : List Text}
    (hkey : executableNameLookupKey cmd0 = some "rg".toList) :
    isSafeToCallWithExec targetIsLinux (cmd0 :: args) =
      !(cmd0 :: args).any isUnsafeRipgrepArg := by
  rw [isSafeToCallWithExec]
  simp only [List.head?_cons, Option.bind_some, hkey]
  rw [if_neg (fun h => absurd h.2 (by decide)), if_neg (by decide), if_neg (by decide),
    if_neg (by decide), if_pos trivial]

/-- No short option but `-z` is refused. -/
theorem isUnsafeRipgrepArg_short {letter : Char} {rest : Text} (hletter : letter ≠ '-') :
    isUnsafeRipgrepArg ('-' :: letter :: rest) = true ↔ letter = 'z' ∧ rest = [] := by
  simp [isUnsafeRipgrepArg, hletter.symm, hletter]

theorem isUnsafeRipgrepArg_word (bundle : OptionBundle) :
    isUnsafeRipgrepArg bundle.word = false := by
  obtain ⟨first, second, rest, hword, -, hfirst⟩ := bundle.exists_word
  rw [hword, Bool.eq_false_iff, ne_eq, isUnsafeRipgrepArg_short hfirst]
  simp

theorem any_isUnsafeRipgrepArg_separated (bundle : OptionBundle) :
    bundle.separated.any isUnsafeRipgrepArg = true ↔
      'z' ∈ bundle.flags ∨ bundle.last = 'z' ∧ bundle.value = [] := by
  have hdash := bundle.dash_not_mem
  simp only [List.mem_append, List.mem_singleton, not_or] at hdash
  have hflags : ∀ letter ∈ bundle.flags,
      (isUnsafeRipgrepArg ['-', letter] = true ↔ letter = 'z') := by
    intro letter hletter
    rw [isUnsafeRipgrepArg_short (ne_of_mem_of_not_mem hletter hdash.1)]
    simp
  rw [OptionBundle.separated, List.any_append, Bool.or_eq_true, List.any_map, List.any_eq_true,
    List.any_cons, List.any_nil, Bool.or_false, isUnsafeRipgrepArg_short (Ne.symm hdash.2)]
  apply or_congr_left
  constructor
  · rintro ⟨letter, hletter, hunsafe⟩
    rw [← (hflags letter hletter).mp hunsafe]
    exact hletter
  · intro hmem
    exact ⟨'z', hmem, (hflags 'z' hmem).mpr rfl⟩

/-! ### Base64 -/

theorem isSafe_base64 {targetIsLinux : Bool} {cmd0 : Text} {args : List Text}
    (hkey : executableNameLookupKey cmd0 = some "base64".toList) :
    isSafeToCallWithExec targetIsLinux (cmd0 :: args) = !args.any isUnsafeBase64Arg := by
  rw [isSafeToCallWithExec]
  simp only [List.head?_cons, Option.bind_some, hkey]
  rw [if_neg (fun h => absurd h.2 (by decide)), if_neg (by decide), if_pos trivial, List.drop_one,
    List.tail_cons]

/-- `-o` is refused with and without a value, and no other short option is. -/
theorem isUnsafeBase64Arg_short {letter : Char} {rest : Text} (hletter : letter ≠ '-') :
    isUnsafeBase64Arg ('-' :: letter :: rest) = true ↔ letter = 'o' := by
  by_cases ho : letter = 'o'
  · subst ho
    by_cases hrest : rest = []
    · simp [isUnsafeBase64Arg, hrest]
    · simp [isUnsafeBase64Arg, hrest]
  · simp [isUnsafeBase64Arg, hletter.symm, hletter, ho, Ne.symm ho]

theorem isUnsafeBase64Arg_word (bundle : OptionBundle) :
    isUnsafeBase64Arg bundle.word = true ↔ bundle.flags.head? = some 'o' := by
  obtain ⟨first, second, rest, hword, hfirst, hdash⟩ := bundle.exists_word
  rw [hword, isUnsafeBase64Arg_short hdash, hfirst, Option.some.injEq]

theorem any_isUnsafeBase64Arg_separated (bundle : OptionBundle) :
    bundle.separated.any isUnsafeBase64Arg = true ↔ 'o' ∈ bundle.letters := by
  have hdash := bundle.dash_not_mem
  simp only [List.mem_append, List.mem_singleton, not_or] at hdash
  have hflags : ∀ letter ∈ bundle.flags,
      (isUnsafeBase64Arg ['-', letter] = true ↔ letter = 'o') :=
    fun letter hletter => isUnsafeBase64Arg_short (ne_of_mem_of_not_mem hletter hdash.1)
  rw [OptionBundle.separated, List.any_append, Bool.or_eq_true, List.any_map, List.any_eq_true,
    List.any_cons, List.any_nil, Bool.or_false, isUnsafeBase64Arg_short (Ne.symm hdash.2),
    OptionBundle.letters, List.mem_append, List.mem_singleton, eq_comm]
  apply or_congr_left
  constructor
  · rintro ⟨letter, hletter, hunsafe⟩
    rw [← (hflags letter hletter).mp hunsafe]
    exact hletter
  · intro hmem
    exact ⟨'o', hmem, (hflags 'o' hmem).mpr rfl⟩

/-! ### Bundles and separate options -/

section Replacement

variable {isUnsafe : Text → Bool} {before after separated : List Text} {word : Text}

/-- Where the arguments are checked one by one, a replacement keeps a list accepted exactly if it
is harmless, or the list was not accepted before. -/
theorem accepts_replaced_iff :
    ((!(before ++ word :: after).any isUnsafe) = true →
        (!(before ++ (separated ++ after)).any isUnsafe) = true) ↔
      separated.any isUnsafe = false ∨ isUnsafe word = true ∨
        (before ++ after).any isUnsafe = true := by
  simp only [List.any_append, List.any_cons, Bool.not_eq_true', Bool.or_eq_false_iff,
    Bool.or_eq_true]
  rcases separated.any isUnsafe with _ | _
  · simp +contextual
  · rcases isUnsafe word with _ | _
    · rcases before.any isUnsafe with _ | _
      · simp
      · simp
    · simp

end Replacement

/-- For every bundle in the arguments of `rg`, a list that is accepted with the bundle is accepted
with separate options exactly if `-z` is not among them or another argument is refused.  For
`base64` this is so exactly if the bundle has no `o` or begins with it, or another argument is
refused. -/
theorem accepts_separated_iff (targetIsLinux : Bool) {rg base64 : Text}
    (hrg : executableNameLookupKey rg = some "rg".toList)
    (hbase64 : executableNameLookupKey base64 = some "base64".toList)
    (before after : List Text) (bundle : OptionBundle) :
    ((isSafeToCallWithExec targetIsLinux (rg :: before ++ bundle.word :: after) = true →
        isSafeToCallWithExec targetIsLinux
          (rg :: before ++ (bundle.separated ++ after)) = true) ↔
      ('z' ∉ bundle.flags ∧ ¬ (bundle.last = 'z' ∧ bundle.value = [])) ∨
        (rg :: before ++ after).any isUnsafeRipgrepArg = true) ∧
    ((isSafeToCallWithExec targetIsLinux (base64 :: before ++ bundle.word :: after) = true →
        isSafeToCallWithExec targetIsLinux
          (base64 :: before ++ (bundle.separated ++ after)) = true) ↔
      'o' ∉ bundle.letters ∨ bundle.flags.head? = some 'o' ∨
        (before ++ after).any isUnsafeBase64Arg = true) := by
  constructor
  · rw [List.cons_append, List.cons_append, isSafe_ripgrep hrg, isSafe_ripgrep hrg,
      ← List.cons_append, ← List.cons_append, accepts_replaced_iff, isUnsafeRipgrepArg_word,
      Bool.eq_false_iff, ne_eq, any_isUnsafeRipgrepArg_separated, not_or]
    simp
  · rw [List.cons_append, List.cons_append, isSafe_base64 hbase64, isSafe_base64 hbase64,
      accepts_replaced_iff, isUnsafeBase64Arg_word, Bool.eq_false_iff, ne_eq,
      any_isUnsafeBase64Arg_separated]

/-- `-nz`. -/
def bundleNZ : OptionBundle := ⟨['n'], 'z', [], by decide, by decide⟩

/-- `-do`. -/
def bundleDO : OptionBundle := ⟨['d'], 'o', [], by decide, by decide⟩

theorem accepts_separated_nz :
    ((isSafeToCallWithExec true ("rg".toList :: [] ++ bundleNZ.word :: ["x".toList]) = true →
        isSafeToCallWithExec true
          ("rg".toList :: [] ++ (bundleNZ.separated ++ ["x".toList])) = true) ↔
      ('z' ∉ bundleNZ.flags ∧ ¬ (bundleNZ.last = 'z' ∧ bundleNZ.value = [])) ∨
        ("rg".toList :: [] ++ ["x".toList]).any isUnsafeRipgrepArg = true) ∧
    ((isSafeToCallWithExec true
          ("/bin/base64".toList :: [] ++ bundleNZ.word :: ["x".toList]) = true →
        isSafeToCallWithExec true
          ("/bin/base64".toList :: [] ++ (bundleNZ.separated ++ ["x".toList])) = true) ↔
      'o' ∉ bundleNZ.letters ∨ bundleNZ.flags.head? = some 'o' ∨
        ([] ++ ["x".toList]).any isUnsafeBase64Arg = true) :=
  accepts_separated_iff true (by decide +kernel) (by decide +kernel) [] ["x".toList] bundleNZ

/-- `rg -nz x` and `base64 -do x` are accepted, `rg -n -z x` and `base64 -d -o x` are not. -/
theorem bundles_hide_options :
    isSafeToCallWithExec true ["rg".toList, bundleNZ.word, "x".toList] = true ∧
      isSafeToCallWithExec true ("rg".toList :: (bundleNZ.separated ++ ["x".toList])) = false ∧
      isSafeToCallWithExec true ["base64".toList, bundleDO.word, "x".toList] = true ∧
      isSafeToCallWithExec true
        ("base64".toList :: (bundleDO.separated ++ ["x".toList])) = false := by
  decide +kernel

end Codewith.Shell
