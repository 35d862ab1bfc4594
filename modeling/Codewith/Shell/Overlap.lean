import Codewith.Shell.Wrapping

/-!
# Safe commands are not dangerous

A command that is known to be safe is judged by the names of its commands, and the name of a
command in a plain script is the same for the walk that looks for dangerous commands.
-/

namespace Codewith.Shell

open Lib

/-- In the grammar nothing but assignments, redirections and comments stands before the name of
a command. -/
def CommandsHaveNames (tree : Tree) : Prop :=
  ∀ node ∈ tree.root.descendants, node.kind = .command →
    ∃ before name arguments, node.namedChildren = before ++ name :: arguments ∧
      (∀ child ∈ before, ∃ kind, child.kind = .otherNamed kind) ∧ name.kind = .commandName

section Names

variable {tryParseShell : TryParseShell}

/-- No name of a safe command has a rule for dangerous commands. -/
theorem not_forcedRmAt_of_judged {cmd0 key : Text} {args : List Text} {layers : Nat}
    (hname : fileName cmd0 = some key) (hkey : key ∈ judgedNames) :
    ¬ ForcedRmAt tryParseShell layers (cmd0 :: args) := by
  intro h
  have hnone : ∀ key ∈ judgedNames,
      key ∉ ["rm".toList, "sudo".toList, "env".toList, "trap".toList] := by
    decide
  exact hnone key hkey (key_of_forcedRmAt h hname (judgedNames_namesNoShell key hkey))

theorem extractBashCommand_of_renamed {command : List Text}
    (h : (extractBashCommand (command.map renameZsh)).isSome) :
    (extractBashCommand command).isSome := by
  rcases command with _ | ⟨shell, _ | ⟨flag, _ | ⟨script, _ | ⟨more, rest⟩⟩⟩⟩
  · simp [extractBashCommand] at h
  · simp [extractBashCommand] at h
  · simp [extractBashCommand] at h
  · have hflag : ∀ wanted, renameZsh flag = wanted → wanted ≠ "bash".toList → flag = wanted := by
      intro wanted heq hne
      by_cases hzsh : flag = "zsh".toList
      · rw [renameZsh, if_pos hzsh] at heq
        exact absurd heq.symm hne
      · rwa [renameZsh, if_neg hzsh] at heq
    simp only [List.map_cons, List.map_nil, extractBashCommand] at h ⊢
    split_ifs at h with hshell
    · obtain ⟨hflags, hdetect⟩ := hshell
      have hflags' : flag = "-lc".toList ∨ flag = "-c".toList :=
        hflags.imp (fun heq => hflag _ heq (by decide)) (fun heq => hflag _ heq (by decide))
      have hdetect' : detectShellType shell = some .zsh ∨ detectShellType shell = some .bash ∨
          detectShellType shell = some .sh := by
        by_cases hzsh : shell = "zsh".toList
        · rw [hzsh]
          exact .inl (by decide)
        · rwa [renameZsh, if_neg hzsh] at hdetect
      rw [if_pos ⟨hflags', hdetect'⟩]
      rfl
    · simp at h
  · simp [extractBashCommand] at h

/-- A command is known to be safe by its own name or as a script. -/
theorem isKnownSafeCommand_cases {targetIsLinux : Bool} {command : List Text}
    (h : isKnownSafeCommand tryParseShell targetIsLinux command = true) :
    (∃ cmd0 args key, command = cmd0 :: args ∧ fileName cmd0 = some key ∧ key ∈ judgedNames) ∨
      (extractBashCommand command).isSome := by
  have hmap : (command.map fun s => if s = "zsh".toList then "bash".toList else s) =
      command.map renameZsh := rfl
  unfold isKnownSafeCommand at h
  rw [hmap] at h
  dsimp only at h
  rcases Bool.or_eq_true_iff.mp h with hdirect | hscript
  · left
    obtain ⟨name, rest, key, hcommand, hname, hkey⟩ := key_mem_judgedNames hdirect
    obtain ⟨cmd0, args, rfl, hrename, -⟩ := List.map_eq_cons_iff.mp hcommand
    refine ⟨cmd0, args, key, rfl, ?_, hkey⟩
    by_cases hzsh : cmd0 = "zsh".toList
    · rw [renameZsh, if_pos hzsh] at hrename
      rw [← hrename, show fileName "bash".toList = some "bash".toList by decide,
        Option.some.injEq] at hname
      rw [← hname] at hkey
      exact absurd hkey (by decide)
    · rw [renameZsh, if_neg hzsh] at hrename
      rwa [hrename]
  · right
    rcases hparse : parseShellLcPlainCommands tryParseShell (command.map renameZsh) with
      _ | commands
    · simp [hparse] at hscript
    · simp only [parseShellLcPlainCommands, Option.bind_eq_bind, Option.bind_eq_some_iff] at hparse
      obtain ⟨_, hextract, -⟩ := hparse
      apply extractBashCommand_of_renamed
      rw [hextract]
      rfl

end Names

/-! ### The two walks -/

theorem mem_collectLiteralCommands {src : Text} {rounds : Nat} {stack : List Node}
    {commands : List (List Text)} {command : List Text}
    (h : command ∈ collectLiteralCommands src rounds stack commands) :
    command ∈ commands ∨ ∃ node ∈ nodesOf stack,
      parseLiteralCommandFromNode src node = some command := by
  induction rounds generalizing stack commands with
  | zero =>
      cases stack with
      | nil => exact .inl h
      | cons node stack => exact .inl h
  | succ rounds ih =>
      cases stack with
      | nil => exact .inl h
      | cons node stack =>
          rw [collectLiteralCommands] at h
          rcases ih h with hfound | ⟨below, hbelow, hparse⟩
          · rcases List.mem_append.mp hfound with hbefore | hhere
            · exact .inl hbefore
            · rw [Option.mem_toList] at hhere
              exact .inr ⟨node, mem_nodesOf_cons.mpr (.inl rfl), hhere⟩
          · refine .inr ⟨below, mem_nodesOf_cons.mpr (.inr ?_), hparse⟩
            simp only [nodesOf, List.flatMap_append, List.mem_append, List.mem_flatMap,
              List.mem_reverse, Node.namedChildren, List.mem_filter] at hbelow ⊢
            rcases hbelow with ⟨child, ⟨hchild, -⟩, hin⟩ | hin
            · exact .inl ⟨child, hchild, hin⟩
            · exact .inr hin

/-- Words are added at the end. -/
theorem head_collectLiteralWords {src : Text} {children : List Node} {found : Bool}
    {first : Text} {words result : List Text}
    (h : collectLiteralWords src children found (first :: words) = some result) :
    result.head? = some first := by
  induction children generalizing found words with
  | nil =>
      rw [collectLiteralWords] at h
      split_ifs at h
      rw [← Option.some.inj h]
      rfl
  | cons child children ih =>
      rw [collectLiteralWords] at h
      split_ifs at h with hname hfound
      · simp only [Option.bind_eq_bind, Option.bind_eq_some_iff] at h
        obtain ⟨_, -, _, -, h⟩ := h
        exact ih h
      · split at h
        · exact ih h
        · exact ih h
      · exact ih h

theorem parseLiteralShellWord_word {src text : Text} {node : Node} (hkind : node.kind = .word)
    (h : parseLiteralShellWord src node = some text) : text = node.utf8Text src := by
  cases node with
  | mk kind startByte endByte children =>
      rw [Node.kind] at hkind
      subst hkind
      rw [parseLiteralShellWord] at h
      split_ifs at h
      exact (Option.some.inj h).symm

/-- Both walks take the same word for the name of a command that begins with its name. -/
theorem name_eq_name {src : Text} {node name : Node} {arguments : List Node}
    {plain literal : List Text} (hchildren : node.namedChildren = name :: arguments)
    (hname : name.kind = .commandName) (hplain : parsePlainCommandFromNode src node = some plain)
    (hliteral : parseLiteralCommandFromNode src node = some literal) :
    literal.head? = plain.head? := by
  rw [parsePlainCommandFromNode] at hplain
  split_ifs at hplain
  rw [hchildren, List.mapM_cons] at hplain
  simp only [Option.pure_def, Option.bind_eq_bind, Option.bind_eq_some_iff, Option.some.injEq,
    parseArgument, hname] at hplain
  obtain ⟨_, ⟨word, hword, hplainName⟩, _, -, rfl⟩ := hplain
  split_ifs at hplainName with hkind
  rw [parseLiteralCommandFromNode] at hliteral
  split_ifs at hliteral
  rw [hchildren, collectLiteralWords, if_pos hname] at hliteral
  simp only [Option.bind_eq_bind, Option.bind_eq_some_iff] at hliteral
  obtain ⟨word', hword', literalName, hliteralName, hrest⟩ := hliteral
  rw [hword, Option.some.injEq] at hword'
  subst hword'
  rw [List.nil_append] at hrest
  rw [head_collectLiteralWords hrest, List.head?_cons, ← Option.some.inj hplainName,
    parseLiteralShellWord_word (by simpa using hkind) hliteralName]

/-- Nothing stands before the name of a command in a tree whose nodes are all allowed. -/
theorem namedChildren_of_allowed {tree : Tree} {node : Node} (hnames : CommandsHaveNames tree)
    (hallowed : ∀ node ∈ tree.root.descendants, isAllowedNode node = true)
    (hnode : node ∈ tree.root.descendants) (hkind : node.kind = .command) :
    ∃ name arguments, node.namedChildren = name :: arguments ∧ name.kind = .commandName := by
  obtain ⟨before, name, arguments, hchildren, hbefore, hname⟩ := hnames node hnode hkind
  cases before with
  | nil => exact ⟨name, arguments, hchildren, hname⟩
  | cons child before =>
      obtain ⟨kind, hother⟩ := hbefore child (List.mem_cons_self ..)
      have hmem : child ∈ node.namedChildren := by simp [hchildren]
      have hchild := hallowed child
        (mem_descendants_of_mem_children hnode (List.mem_of_mem_filter hmem))
      simp [isAllowedNode, hother] at hchild

/-- Whatever the walk for dangerous commands finds in a plain script bears the name of one of its
plain commands. -/
theorem exists_plain_of_literal {tree : Tree} {script : Text} {plain : List (List Text)}
    {rounds : Nat} {literal : List Text} (hnames : CommandsHaveNames tree)
    (haccept : tryParseWordOnlyCommandsSequence tree script = some plain)
    (hliteral : literal ∈ collectLiteralCommands script rounds [tree.root] []) :
    ∃ words ∈ plain, literal.head? = words.head? := by
  unfold tryParseWordOnlyCommandsSequence at haccept
  split_ifs at haccept
  obtain ⟨nodes, hnodes, hparse⟩ := Option.bind_eq_some_iff.mp haccept
  obtain ⟨hallowed, hcommand⟩ := commandNodes_eq_some hnodes
  rcases mem_collectLiteralCommands hliteral with hnone | ⟨node, hnode, hwords⟩
  · exact absurd hnone List.not_mem_nil
  · have hroot : nodesOf [tree.root] = tree.root.descendants := by simp [nodesOf]
    rw [hroot] at hnode
    have hkind : node.kind = .command := by
      by_contra hkind
      simp [parseLiteralCommandFromNode, hkind] at hwords
    obtain ⟨name, arguments, hchildren, hname⟩ :=
      namedChildren_of_allowed hnames hallowed hnode hkind
    obtain ⟨words, hmem, hplain⟩ := Result.exists_of_mapM hparse
      ((hcommand node).mpr ⟨hnode, hkind⟩)
    exact ⟨words, hmem, name_eq_name hchildren hname hplain hwords⟩

/-- A shell is dangerous by its script only. -/
theorem exists_inner_of_shell {tryParseShell : TryParseShell} {shell flag script : Text}
    {layers : Nat} (hshell : (extractBashCommand [shell, flag, script]).isSome)
    (h : ForcedRmAt tryParseShell layers [shell, flag, script]) :
    ∃ tree inner depth, tryParseShell script = some tree ∧ tree.hasError = false ∧
      inner ∈ collectLiteralCommands script tree.root.descendants.length [tree.root] [] ∧
        ForcedRmAt tryParseShell depth inner := by
  have hdetect : detectShellType shell ≠ none := by
    intro hnone
    simp [extractBashCommand, hnone] at hshell
  cases h with
  | rm hkey _ => exact absurd (detectShellType_of_fileName hkey (by decide)) hdetect
  | underSudo hkey _ => exact absurd (detectShellType_of_fileName hkey (by decide)) hdetect
  | underEnv hkey _ => exact absurd (detectShellType_of_fileName hkey (by decide)) hdetect
  | underTrap hkey _ _ =>
      exact absurd (detectShellType_of_fileName hkey (by decide)) hdetect
  | inScript hscript hmem hinner =>
      simp only [parseShellLcLiteralCommands, Option.bind_eq_bind, Option.bind_eq_some_iff,
        extractBashCommand] at hscript
      obtain ⟨⟨shell', script'⟩, hextract, tree, htree, hcommands⟩ := hscript
      split_ifs at hextract hcommands with hflag herror
      simp only [Option.some.injEq, Prod.mk.injEq] at hextract
      obtain ⟨-, rfl⟩ := hextract
      rw [Option.some.injEq] at hcommands
      rw [← hcommands] at hmem
      exact ⟨tree, _, _, htree, by simpa using herror, hmem, hinner⟩

/-- A command that is known to be safe is not dangerous. -/
theorem dangerousCommandMatch_eq_none_of_safe (tryParseShell : TryParseShell)
    (targetIsLinux : Bool) {command : List Text}
    (hgrammar : ∀ script tree, tryParseShell script = some tree → tree.hasError = false →
      CommandsHaveNames tree)
    (hsafe : isKnownSafeCommand tryParseShell targetIsLinux command = true) :
    dangerousCommandMatch tryParseShell command = none := by
  by_contra hsome
  obtain ⟨layers, -, hlayers⟩ :=
    isSome_dangerousCommandMatch_iff.mp (Option.isSome_iff_ne_none.mpr hsome)
  rcases isKnownSafeCommand_cases hsafe with ⟨cmd0, args, key, rfl, hname, hkey⟩ | hshell
  · exact not_forcedRmAt_of_judged hname hkey hlayers
  · obtain ⟨shell, flag, script, rfl⟩ : ∃ shell flag script, command = [shell, flag, script] := by
      unfold extractBashCommand at hshell
      split at hshell
      · exact ⟨_, _, _, rfl⟩
      · simp at hshell
    obtain ⟨tree, inner, depth, htree, herror, hmem, hinner⟩ := exists_inner_of_shell hshell hlayers
    obtain ⟨tree', plain, htree', haccept, hne, hall⟩ := isKnownSafeCommand_script hshell hsafe
    by_cases hzsh : script = "zsh".toList
    · rw [renameZsh, if_pos hzsh] at haccept
      obtain ⟨words, hwords⟩ := List.exists_mem_of_ne_nil plain hne
      have hunsafe : isSafeToCallWithExec targetIsLinux words = false :=
        not_isSafe_of_bash haccept hwords
      rw [hall words hwords] at hunsafe
      cases hunsafe
    · rw [renameZsh, if_neg hzsh] at htree' haccept
      rw [htree, Option.some.injEq] at htree'
      subst htree'
      obtain ⟨words, hwords, hhead⟩ :=
        exists_plain_of_literal (hgrammar script tree htree herror) haccept hmem
      obtain ⟨name, rest, key, rfl, hname, hkey⟩ := key_mem_judgedNames (hall words hwords)
      obtain ⟨args, rfl⟩ := List.head?_eq_some_iff.mp hhead
      exact not_forcedRmAt_of_judged hname hkey hinner

theorem commandsHaveNames_bareCommand {length : Nat} {name : Nat × Nat}
    {arguments : List (Nat × Nat)} : CommandsHaveNames (bareCommand length name arguments) := by
  intro node hnode hkind
  simp only [bareCommand, Node.descendants, Node.descendantsOf, descendantsOf_eq,
    List.flatMap_map, List.append_nil, List.mem_cons, List.cons_append, List.nil_append,
    List.mem_flatMap, List.not_mem_nil, or_false] at hnode
  rcases hnode with rfl | rfl | rfl | rfl | ⟨span, hspan, rfl⟩
  · simp [Node.kind] at hkind
  · refine ⟨[], _, _, List.filter_cons_of_pos rfl, ?_, rfl⟩
    simp
  · simp [Node.kind] at hkind
  · simp [Node.kind] at hkind
  · simp [Node.kind] at hkind

theorem ls_script_not_dangerous :
    dangerousCommandMatch (parsesAs "ls -l".toList (bareCommand 5 (0, 2) [(3, 5)]))
      ["bash".toList, "-lc".toList, "ls -l".toList] = none := by
  apply dangerousCommandMatch_eq_none_of_safe _ true
  · intro script tree htree _
    rw [parsesAs] at htree
    split_ifs at htree
    rw [← Option.some.inj htree]
    exact commandsHaveNames_bareCommand
  · decide +kernel

end Codewith.Shell
