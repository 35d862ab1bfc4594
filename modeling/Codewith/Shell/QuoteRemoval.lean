import Codewith.Lib.Quoting
import Codewith.Lib.Result
import Codewith.Shell.SafeCommand

/-!
# What the shell makes of the arguments

The arguments that are judged are compared with those that the shell runs the commands with:
the words that it makes of the source texts of the arguments by brace expansion, after quote
removal.
-/

namespace Codewith.Shell

open Lib Lib.Result

/-! ### The walk over the tree -/

theorem descendantsOf_eq (nodes : List Node) :
    Node.descendantsOf nodes = nodes.flatMap Node.descendants := by
  induction nodes with
  | nil => rfl
  | cons node nodes ih => simp [Node.descendantsOf, ih]

theorem descendants_eq (node : Node) :
    node.descendants = node :: node.children.flatMap Node.descendants := by
  cases node with
  | mk kind startByte endByte children =>
      simp [Node.descendants, Node.children, descendantsOf_eq]

theorem mem_descendants_self (node : Node) : node ∈ node.descendants := by
  rw [descendants_eq]
  exact List.mem_cons_self ..

theorem length_descendants_lt {node child : Node} (h : child ∈ node.children) :
    child.descendants.length < node.descendants.length := by
  rw [descendants_eq node, List.length_cons]
  exact Nat.lt_succ_of_le (List.infix_flatMap_of_mem h Node.descendants).length_le

theorem mem_descendants_of_mem_children {root node child : Node} (h : node ∈ root.descendants)
    (hchild : child ∈ node.children) : child ∈ root.descendants := by
  induction hlength : root.descendants.length using Nat.strong_induction_on generalizing root with
  | _ length ih =>
      rw [descendants_eq] at h ⊢
      rcases List.mem_cons.mp h with rfl | hbelow
      · refine List.mem_cons_of_mem _ (List.mem_flatMap.mpr ⟨child, hchild, ?_⟩)
        exact mem_descendants_self child
      · obtain ⟨top, htop, hnode⟩ := List.mem_flatMap.mp hbelow
        have hless := length_descendants_lt htop
        refine List.mem_cons_of_mem _ (List.mem_flatMap.mpr ⟨top, htop, ?_⟩)
        exact ih _ (hlength ▸ hless) hnode rfl

/-- The nodes of a stack with everything below them. -/
def nodesOf (stack : List Node) : List Node := stack.flatMap Node.descendants

theorem mem_nodesOf_cons {node : Node} {stack : List Node} {n : Node} :
    n ∈ nodesOf (node :: stack) ↔ n = node ∨ n ∈ nodesOf (node.children.reverse ++ stack) := by
  simp [nodesOf, descendants_eq node, List.mem_flatMap]

theorem length_nodesOf_cons (node : Node) (stack : List Node) :
    (nodesOf (node :: stack)).length = (nodesOf (node.children.reverse ++ stack)).length + 1 := by
  have hperm : (node.children.reverse.flatMap Node.descendants).length =
      (node.children.flatMap Node.descendants).length :=
    ((List.reverse_perm node.children).flatMap_right Node.descendants).length_eq
  simp only [nodesOf, List.flatMap_cons, descendants_eq node, List.cons_append, List.length_cons,
    List.length_append, List.flatMap_append, hperm]

/-- The walk succeeds exactly if every node is allowed. -/
theorem isSome_collectCommands {rounds : Nat} {stack : List Node} (found : List Node)
    (h : (nodesOf stack).length ≤ rounds) :
    (collectCommands rounds stack found).isSome ↔ ∀ n ∈ nodesOf stack, isAllowedNode n = true := by
  induction rounds generalizing stack found with
  | zero =>
      cases stack with
      | nil => simp [collectCommands, nodesOf]
      | cons node stack =>
          rw [length_nodesOf_cons] at h
          omega
  | succ rounds ih =>
      cases stack with
      | nil => simp [collectCommands, nodesOf]
      | cons node stack =>
          rw [length_nodesOf_cons] at h
          simp only [collectCommands, mem_nodesOf_cons]
          by_cases hallowed : isAllowedNode node = true
          · rw [if_pos hallowed, ih _ (by omega)]
            simp [hallowed]
          · rw [if_neg hallowed]
            simp [hallowed]

/-- The walk finds the commands of the tree. -/
theorem mem_collectCommands {rounds : Nat} {stack found result : List Node}
    (h : collectCommands rounds stack found = some result) (n : Node) :
    n ∈ result ↔ n ∈ found ∨ n ∈ nodesOf stack ∧ n.kind = .command := by
  induction rounds generalizing stack found with
  | zero =>
      cases stack with
      | nil =>
          simp only [collectCommands, Option.some.injEq] at h
          simp [h, nodesOf]
      | cons node stack => simp [collectCommands] at h
  | succ rounds ih =>
      cases stack with
      | nil =>
          simp only [collectCommands, Option.some.injEq] at h
          simp [h, nodesOf]
      | cons node stack =>
          simp only [collectCommands] at h
          split at h
          · rw [ih h, mem_nodesOf_cons]
            by_cases hcommand : node.kind = .command
            · rw [if_pos hcommand, List.mem_append, List.mem_singleton]
              constructor
              · rintro ((hfound | rfl) | hbelow)
                · exact .inl hfound
                · exact .inr ⟨.inl rfl, hcommand⟩
                · exact .inr ⟨.inr hbelow.1, hbelow.2⟩
              · rintro (hfound | ⟨rfl | hbelow, hkind⟩)
                · exact .inl (.inl hfound)
                · exact .inl (.inr rfl)
                · exact .inr ⟨hbelow, hkind⟩
            · rw [if_neg hcommand]
              constructor
              · rintro (hfound | hbelow)
                · exact .inl hfound
                · exact .inr ⟨.inr hbelow.1, hbelow.2⟩
              · rintro (hfound | ⟨rfl | hbelow, hkind⟩)
                · exact .inl hfound
                · exact absurd hkind hcommand
                · exact .inr ⟨hbelow, hkind⟩
          · simp at h

/-- The commands of a tree whose nodes are all allowed. -/
theorem commandNodes_eq_some {tree : Tree} {nodes : List Node}
    (h : commandNodes tree = some nodes) :
    (∀ node ∈ tree.root.descendants, isAllowedNode node = true) ∧
      ∀ node, node ∈ nodes ↔ node ∈ tree.root.descendants ∧ node.kind = .command := by
  unfold commandNodes at h
  rcases hcollect : collectCommands tree.root.descendants.length [tree.root] [] with _ | found
  · simp [hcollect] at h
  · simp only [hcollect, Option.bind_eq_bind, Option.bind_some, Option.some.injEq] at h
    have hroot : nodesOf [tree.root] = tree.root.descendants := by simp [nodesOf]
    refine ⟨?_, ?_⟩
    · rw [← hroot]
      have hrounds : (nodesOf [tree.root]).length ≤ tree.root.descendants.length := by rw [hroot]
      refine (isSome_collectCommands [] hrounds).mp ?_
      rw [hcollect]
      rfl
    · intro node
      rw [← h, (List.mergeSort_perm _ _).mem_iff, mem_collectCommands hcollect, hroot]
      simp

/-! ### The source text of an argument and what is taken for it -/

/-- The nodes that the grammar makes of an argument, as far as quotes are concerned.  A bare
word has no quotes, and every backslash in it is followed by a character. -/
structure GrammarForm (src : Text) (node : Node) : Prop where
  word : node.kind = .word → WordText (node.utf8Text src)
  number : node.kind = .number → (∃ child ∈ node.children, ∃ name, child.kind = .otherNamed name) ∨
    ∀ c ∈ node.utf8Text src, c ≠ '\\' ∧ c ≠ '\'' ∧ c ≠ '"'
  string : node.kind = .string → (∀ part ∈ node.namedChildren, part.kind = .stringContent) →
    ∃ content, node.utf8Text src = '"' :: (content ++ ['"']) ∧ DoubleQuotedText content
  rawString : node.kind = .rawString →
    ∃ content, node.utf8Text src = '\'' :: (content ++ ['\'']) ∧ '\'' ∉ content
  concatenation : node.kind = .concatenation →
    node.utf8Text src = (node.children.map (Node.utf8Text src)).flatten ∧
      ∀ child ∈ node.children, child.isNamed = true ∨ child.kind = .token "\x60\x60".toList ∨
        child.kind = .token "$".toList
  commandName : node.kind = .commandName →
    ∃ child, node.children = [child] ∧ child.isNamed = true ∧
      child.utf8Text src = node.utf8Text src

/-- The words that the shell makes of each argument of a command, other expansions aside. -/
def executedWords (shell : BraceExpansion) (src : Text) (command : Node) : List (List Text) :=
  command.namedChildren.map fun argument => shell.words (argument.utf8Text src)

/-- The arguments that the shell runs a command with. -/
def executedArguments (shell : BraceExpansion) (src : Text) (command : Node) : List Text :=
  (executedWords shell src command).flatten

/-- Each argument as the only word that is made of it. -/
def asWords (arguments : List Text) : List (List Text) := arguments.map fun argument => [argument]

theorem flatten_asWords (arguments : List Text) : (asWords arguments).flatten = arguments := by
  simp [asWords, ← List.flatMap_def]

/-- What stands between the quotes of a string. -/
def Node.content (src : Text) (node : Node) : Text := ((node.utf8Text src).drop 1).dropLast

/-- The words and strings of which an argument consists. -/
def argumentTokens (argument : Node) : List Node :=
  match argument.kind with
  | .commandName | .concatenation => argument.namedChildren
  | _ => [argument]

/-- No bare word has a backslash, and no backslash in a double-quoted string keeps a
character. -/
def IsPlainToken (src : Text) (token : Node) : Prop :=
  (token.kind = .word → '\\' ∉ token.utf8Text src) ∧
    (token.kind = .string → ¬ HasKeptEscape (token.content src))

def IsPlainArgument (src : Text) (argument : Node) : Prop :=
  ∀ token ∈ argumentTokens argument, IsPlainToken src token

section Reading

variable {src taken : Text} {node : Node}

theorem readAs_congr {s : Text} {p q : Prop} (h : ReadAs s taken p) (hpq : p ↔ q) :
    ReadAs s taken q :=
  ⟨h.closed, h.length_le, h.eq_iff.trans hpq⟩

theorem content_of_eq {c : Char} {content : Text}
    (h : node.utf8Text src = c :: (content ++ [c])) : node.content src = content := by
  simp [Node.content, h]

theorem strip_quotes (c : Char) (content : Text) :
    (Text.stripPrefix [c] (c :: (content ++ [c]))).bind (Text.stripSuffixChar c) =
      some content := by
  simp [Text.stripPrefix, List.dropPrefix?, Text.stripSuffixChar]

theorem parseDoubleQuotedString_readAs (hform : GrammarForm src node)
    (h : parseDoubleQuotedString src node = some taken) :
    ReadAs (node.utf8Text src) taken (¬ HasKeptEscape (node.content src)) := by
  unfold parseDoubleQuotedString at h
  split_ifs at h with hkind hparts
  obtain ⟨content, htext, hcontent⟩ := hform.string (by simpa using hkind) (by simpa using hparts)
  rw [htext, strip_quotes, Option.some.injEq] at h
  rw [content_of_eq htext, htext, ← h]
  exact hcontent.readAs

theorem parseRawString_readAs (hform : GrammarForm src node)
    (h : parseRawString src node = some taken) : ReadAs (node.utf8Text src) taken True := by
  unfold parseRawString at h
  split_ifs at h with hkind
  obtain ⟨content, htext, hcontent⟩ := hform.rawString (by simpa using hkind)
  rw [htext, strip_quotes, Option.some.injEq] at h
  rw [htext, ← h]
  exact readAs_single hcontent

theorem number_readAs (hform : GrammarForm src node) (hkind : node.kind = .number)
    (hallowed : ∀ child ∈ node.children, isAllowedNode child = true) :
    ReadAs (node.utf8Text src) (node.utf8Text src) True := by
  rcases hform.number hkind with ⟨child, hchild, name, hname⟩ | hplain
  · have := hallowed child hchild
    simp [isAllowedNode, hname] at this
  · exact readAs_self_of_plain hplain

theorem parsePart_readAs (hform : GrammarForm src node)
    (hallowed : ∀ child ∈ node.children, isAllowedNode child = true)
    (h : parsePart src node = some taken) :
    ReadAs (node.utf8Text src) taken (IsPlainToken src node) := by
  unfold parsePart at h
  unfold IsPlainToken
  split at h
  · rename_i hkind
    rw [Option.some.injEq] at h
    rw [← h]
    exact readAs_congr (hform.word hkind).readAs (by simp [hkind])
  · rename_i hkind
    rw [Option.some.injEq] at h
    rw [← h]
    exact readAs_congr (number_readAs hform hkind hallowed) (by simp [hkind])
  · rename_i hkind
    exact readAs_congr (parseDoubleQuotedString_readAs hform h) (by simp [hkind])
  · rename_i hkind
    exact readAs_congr (parseRawString_readAs hform h) (by simp [hkind])
  · simp at h

theorem mapM_parsePart_readAs {nodes : List Node} {parts : List Text}
    (hform : ∀ node ∈ nodes, GrammarForm src node)
    (hallowed : ∀ node ∈ nodes, ∀ child ∈ node.children, isAllowedNode child = true)
    (h : nodes.mapM (parsePart src) = some parts) :
    ReadAs (nodes.map (Node.utf8Text src)).flatten parts.flatten
      (∀ node ∈ nodes, IsPlainToken src node) := by
  induction nodes generalizing parts with
  | nil =>
      simp only [List.mapM_nil, Option.pure_def, Option.some.injEq] at h
      rw [← h]
      exact readAs_congr ReadAs.nil (by simp)
  | cons node nodes ih =>
      simp only [List.mapM_cons, Option.pure_def, Option.bind_eq_bind,
        Option.bind_eq_some_iff, Option.some.injEq] at h
      obtain ⟨part, hpart, rest, hrest, rfl⟩ := h
      have hfirst := parsePart_readAs (hform node (List.mem_cons_self ..))
        (hallowed node (List.mem_cons_self ..)) hpart
      have hothers := ih (fun n hn => hform n (List.mem_cons_of_mem _ hn))
        (fun n hn => hallowed n (List.mem_cons_of_mem _ hn)) hrest
      exact readAs_congr (hfirst.append hothers) (by simp)

theorem isNamed_of_isAllowed_of_concatenation (hform : GrammarForm src node)
    (hkind : node.kind = .concatenation)
    (hallowed : ∀ child ∈ node.children, isAllowedNode child = true) :
    node.namedChildren = node.children := by
  unfold Node.namedChildren
  rw [List.filter_eq_self]
  intro child hchild
  rcases (hform.concatenation hkind).2 child hchild with hnamed | htoken | htoken
  · exact hnamed
  · have hnot := hallowed child hchild
    simp only [isAllowedNode, htoken] at hnot
    exact absurd hnot (by decide)
  · have hnot := hallowed child hchild
    simp only [isAllowedNode, htoken] at hnot
    exact absurd hnot (by decide)

theorem parseConcatenation_readAs (hform : GrammarForm src node)
    (hkind : node.kind = .concatenation)
    (hchildren : ∀ child ∈ node.children, GrammarForm src child)
    (hallowed : ∀ child ∈ node.children, isAllowedNode child = true)
    (hbelow : ∀ child ∈ node.children, ∀ below ∈ child.children, isAllowedNode below = true)
    (h : parseConcatenation src node = some taken) :
    ReadAs (node.utf8Text src) taken (∀ token ∈ node.namedChildren, IsPlainToken src token) := by
  have hnamed := isNamed_of_isAllowed_of_concatenation hform hkind hallowed
  unfold parseConcatenation at h
  rw [hnamed] at h ⊢
  simp only [Option.bind_eq_bind, Option.bind_eq_some_iff] at h
  obtain ⟨parts, hparts, h⟩ := h
  split_ifs at h
  rw [Option.some.injEq] at h
  rw [(hform.concatenation hkind).1, ← h]
  exact mapM_parsePart_readAs hchildren hbelow hparts

/-- What is taken for an argument is what the shell reads exactly if the argument is plain. -/
theorem parseArgument_readAs (hform : ∀ below ∈ node.descendants, GrammarForm src below)
    (hallowed : ∀ below ∈ node.descendants, isAllowedNode below = true)
    (h : parseArgument src node = some taken) :
    ReadAs (node.utf8Text src) taken (IsPlainArgument src node) := by
  have hself := mem_descendants_self node
  have hchildren : ∀ child ∈ node.children, child ∈ node.descendants :=
    fun child hchild => mem_descendants_of_mem_children hself hchild
  have hnode := hform node hself
  have hbelow : ∀ child ∈ node.children, isAllowedNode child = true :=
    fun child hchild => hallowed child (hchildren child hchild)
  unfold parseArgument at h
  unfold IsPlainArgument argumentTokens
  split at h
  · rename_i hkind
    obtain ⟨child, hsingle, hnamed, htext⟩ := hnode.commandName hkind
    have hnamedChildren : node.namedChildren = [child] := by
      simp [Node.namedChildren, hsingle, hnamed]
    have hchild : child ∈ node.children := by simp [hsingle]
    simp only [hnamedChildren, List.head?_cons, Option.bind_eq_bind, Option.bind_some] at h
    split_ifs at h with hword
    rw [Option.some.injEq] at h
    rw [← htext, ← h]
    have hkind' : child.kind = .word := by simpa using hword
    refine readAs_congr ((hform child (hchildren child hchild)).word hkind').readAs ?_
    simp [hkind, hnamedChildren, IsPlainToken, hkind']
  · rename_i hkind
    have hpart : parsePart src node = some taken := by simpa [parsePart, hkind] using h
    exact readAs_congr (parsePart_readAs hnode hbelow hpart) (by simp [hkind])
  · rename_i hkind
    have hpart : parsePart src node = some taken := by simpa [parsePart, hkind] using h
    exact readAs_congr (parsePart_readAs hnode hbelow hpart) (by simp [hkind])
  · rename_i hkind
    have hpart : parsePart src node = some taken := by simpa [parsePart, hkind] using h
    exact readAs_congr (parsePart_readAs hnode hbelow hpart) (by simp [hkind])
  · rename_i hkind
    have hpart : parsePart src node = some taken := by simpa [parsePart, hkind] using h
    exact readAs_congr (parsePart_readAs hnode hbelow hpart) (by simp [hkind])
  · rename_i hkind
    refine readAs_congr (parseConcatenation_readAs hnode hkind
      (fun child hchild => hform child (hchildren child hchild)) hbelow ?_ h) (by simp [hkind])
    intro child hchild below hbelow
    exact hallowed below (mem_descendants_of_mem_children (hchildren child hchild) hbelow)
  · simp at h

end Reading

/-! ### Whole scripts -/

/-- Every node of a tree has the form that the grammar gives it. -/
def IsGrammarTree (src : Text) (tree : Tree) : Prop :=
  ∀ node ∈ tree.root.descendants, GrammarForm src node

/-- Every argument of every command is plain, and the shell expands no braces in it. -/
def HasPlainArguments (shell : BraceExpansion) (src : Text) (tree : Tree) : Prop :=
  ∀ node ∈ tree.root.descendants, node.kind = .command →
    ∀ argument ∈ node.namedChildren, IsPlainArgument src argument ∧
      shell.expand (argument.utf8Text src) = [argument.utf8Text src]

section Scripts

variable {shell : BraceExpansion} {src : Text} {tree : Tree} {commands : List (List Text)}

theorem mem_descendants_trans {root node below : Node} (h : node ∈ root.descendants)
    (hbelow : below ∈ node.descendants) : below ∈ root.descendants := by
  induction hlength : node.descendants.length using Nat.strong_induction_on generalizing node with
  | _ length ih =>
      rw [descendants_eq] at hbelow
      rcases List.mem_cons.mp hbelow with rfl | hchildren
      · exact h
      · obtain ⟨child, hchild, hmem⟩ := List.mem_flatMap.mp hchildren
        exact ih _ (hlength ▸ length_descendants_lt hchild)
          (mem_descendants_of_mem_children h hchild) hmem rfl

/-- The arguments that are returned are those that the shell runs the commands with, exactly
if all of them are plain and without braces to expand. -/
theorem commands_eq_executed_iff (hgrammar : IsGrammarTree src tree)
    (haccept : tryParseWordOnlyCommandsSequence tree src = some commands) :
    (∃ nodes, commandNodes tree = some nodes ∧
        commands.map asWords = nodes.map (executedWords shell src)) ↔
      HasPlainArguments shell src tree := by
  unfold tryParseWordOnlyCommandsSequence at haccept
  split_ifs at haccept
  obtain ⟨nodes, hnodes, hparse⟩ := Option.bind_eq_some_iff.mp haccept
  obtain ⟨hallowed, hmem⟩ := commandNodes_eq_some hnodes
  have hargument : ∀ node ∈ tree.root.descendants, ∀ argument ∈ node.namedChildren,
      ∀ taken, parseArgument src argument = some taken →
        ReadAs (argument.utf8Text src) taken (IsPlainArgument src argument) := by
    intro node hnode argument hargument taken htaken
    have hin : argument ∈ tree.root.descendants :=
      mem_descendants_of_mem_children hnode (List.mem_of_mem_filter hargument)
    exact parseArgument_readAs
      (fun below hbelow => hgrammar below (mem_descendants_trans hin hbelow))
      (fun below hbelow => hallowed below (mem_descendants_trans hin hbelow)) htaken
  have hcommand : ∀ node ∈ nodes, (parsePlainCommandFromNode src node).map asWords =
      some (executedWords shell src node) ↔
        ∀ argument ∈ node.namedChildren, IsPlainArgument src argument ∧
          shell.expand (argument.utf8Text src) = [argument.utf8Text src] := by
    intro node hnode
    obtain ⟨hin, hkind⟩ := (hmem node).mp hnode
    obtain ⟨words, -, hwords⟩ := exists_of_mapM hparse hnode
    rw [hwords, Option.map_some, Option.some.injEq]
    simp only [parsePlainCommandFromNode, hkind, ne_eq, not_true_eq_false, if_false] at hwords
    rw [executedWords, asWords, map_mapM_eq_map_iff hwords]
    refine forall₂_congr fun argument harg => ?_
    obtain ⟨taken, -, htaken⟩ := exists_of_mapM hwords harg
    rw [htaken, Option.map_some, Option.some.injEq, eq_comm]
    exact (hargument node hin argument harg taken htaken).words_eq_iff shell
  constructor
  · rintro ⟨nodes', hnodes', hequal⟩ node hnode hkind
    rw [hnodes, Option.some.injEq] at hnodes'
    subst hnodes'
    have hin : node ∈ nodes := (hmem node).mpr ⟨hnode, hkind⟩
    exact (hcommand node hin).mp ((map_mapM_eq_map_iff hparse).mp hequal node hin)
  · intro hplain
    refine ⟨nodes, hnodes, (map_mapM_eq_map_iff hparse).mpr fun node hnode => ?_⟩
    obtain ⟨hin, hkind⟩ := (hmem node).mp hnode
    exact (hcommand node hnode).mpr (hplain node hin hkind)

end Scripts

/-! ### Names of shells are not names of safe commands -/

/-- The names that decide about a command. -/
def judgedNames : List Text :=
  alwaysSafeCommands ++ ["numfmt".toList, "tac".toList, "base64".toList, "find".toList,
    "rg".toList, "git".toList, "sed".toList]

theorem key_mem_judgedNames {targetIsLinux : Bool} {command : List Text}
    (h : isSafeToCallWithExec targetIsLinux command = true) :
    ∃ name rest key, command = name :: rest ∧ fileName name = some key ∧ key ∈ judgedNames := by
  unfold isSafeToCallWithExec at h
  rcases command with _ | ⟨name, rest⟩
  · simp at h
  · rcases hkey : fileName name with _ | key
    · simp [executableNameLookupKey, hkey] at h
    · refine ⟨name, rest, key, rfl, hkey, ?_⟩
      simp only [List.head?_cons, Option.bind_some, executableNameLookupKey, hkey] at h
      simp only [judgedNames, List.mem_append]
      split_ifs at h with hlinux halways hbase64 hfind hrg hgit hsed
      · rcases hlinux.2 with rfl | rfl
        · exact .inr (by decide)
        · exact .inr (by decide)
      · exact .inl halways
      · exact .inr (by rw [hbase64]; decide)
      · exact .inr (by rw [hfind]; decide)
      · exact .inr (by rw [hrg]; decide)
      · exact .inr (by rw [hgit]; decide)
      · exact .inr (by rw [hsed]; decide)

/-- A name that is its own stem, and not that of a shell. -/
def NamesNoShell (key : Text) : Prop :=
  shellTypeOfName key = none ∧ fileStem key = some key ∧ stemOf key = key ∧
    PathBuf.sameComponents key key = true

instance (key : Text) : Decidable (NamesNoShell key) :=
  inferInstanceAs (Decidable (_ ∧ _ ∧ _ ∧ _))

theorem judgedNames_namesNoShell : ∀ key ∈ judgedNames, NamesNoShell key := by
  decide

theorem detectShellType_of_fileName {path key : Text} (hname : fileName path = some key)
    (hkey : NamesNoShell key) : detectShellType path = none := by
  obtain ⟨hshell, hstem, hself, hsame⟩ := hkey
  have hwithin : ∀ rounds, detectShellTypeWithin rounds key = none := by
    intro rounds
    cases rounds with
    | zero => exact hshell
    | succ rounds => simp [detectShellTypeWithin, hshell, hstem, hsame]
  have hpath : shellTypeOfName path = none := by
    unfold shellTypeOfName
    have hnames : ∀ shell ∈ ["zsh".toList, "sh".toList, "cmd".toList, "bash".toList, "pwsh".toList,
        "powershell".toList], path ≠ shell := by
      intro shell hmem heq
      have hown : ∀ shell ∈ ["zsh".toList, "sh".toList, "cmd".toList, "bash".toList,
          "pwsh".toList, "powershell".toList],
          fileName shell = some shell ∧ shellTypeOfName shell ≠ none := by
        decide
      obtain ⟨hfile, hshellName⟩ := hown shell hmem
      rw [heq, hfile, Option.some.injEq] at hname
      exact hshellName (hname ▸ hshell)
    simp only [List.mem_cons, List.not_mem_nil, or_false, forall_eq_or_imp, forall_eq] at hnames
    obtain ⟨h₁, h₂, h₃, h₄, h₅, h₆⟩ := hnames
    rw [if_neg h₁, if_neg h₂, if_neg h₃, if_neg h₄, if_neg h₅, if_neg h₆]
  unfold detectShellType
  rcases path.length with _ | rounds
  · exact hpath
  · have hstem' : fileStem path = some key := by simp [fileStem, hname, hself]
    simp only [detectShellTypeWithin, hpath, hstem']
    split
    · rfl
    · exact hwithin rounds

/-- How the words of a command are renamed before they are judged. -/
def renameZsh (s : Text) : Text := if s = "zsh".toList then "bash".toList else s

/-- A shell is not judged by its own name, so its script is. -/
theorem isKnownSafeCommand_script {tryParseShell : TryParseShell} {targetIsLinux : Bool}
    {shell flag script : Text} (hshell : (extractBashCommand [shell, flag, script]).isSome)
    (h : isKnownSafeCommand tryParseShell targetIsLinux [shell, flag, script] = true) :
    ∃ tree commands, tryParseShell (renameZsh script) = some tree ∧
      tryParseWordOnlyCommandsSequence tree (renameZsh script) = some commands ∧
        commands ≠ [] ∧ ∀ command ∈ commands,
          isSafeToCallWithExec targetIsLinux command = true := by
  have hdetect : detectShellType (renameZsh shell) ≠ none := by
    unfold renameZsh
    split_ifs
    · decide
    · intro hnone
      simp [extractBashCommand, hnone] at hshell
  have hdirect : isSafeToCallWithExec targetIsLinux
      [renameZsh shell, renameZsh flag, renameZsh script] = false := by
    by_contra hsafe
    rw [Bool.not_eq_false] at hsafe
    obtain ⟨name, rest, key, hcommand, hname, hkey⟩ := key_mem_judgedNames hsafe
    rw [List.cons.injEq] at hcommand
    rw [← hcommand.1] at hname
    exact hdetect (detectShellType_of_fileName hname (judgedNames_namesNoShell key hkey))
  unfold isKnownSafeCommand at h
  have hmap : [shell, flag, script].map (fun s => if s = "zsh".toList then "bash".toList else s) =
      [renameZsh shell, renameZsh flag, renameZsh script] := rfl
  rw [hmap] at h
  simp only [hdirect, Bool.false_or] at h
  rcases hparse : parseShellLcPlainCommands tryParseShell
      [renameZsh shell, renameZsh flag, renameZsh script] with _ | commands
  · simp [hparse] at h
  · simp only [hparse, Bool.and_eq_true, Bool.not_eq_true', List.isEmpty_eq_false_iff,
      List.all_eq_true] at h
    unfold parseShellLcPlainCommands at hparse
    simp only [Option.bind_eq_bind, Option.bind_eq_some_iff] at hparse
    obtain ⟨⟨shell', script'⟩, hextract, tree, htree, hcommands⟩ := hparse
    have hscript : script' = renameZsh script := by
      simp only [extractBashCommand] at hextract
      split_ifs at hextract
      simp only [Option.some.injEq, Prod.mk.injEq] at hextract
      exact hextract.2.symm
    subst hscript
    exact ⟨tree, commands, htree, hcommands, h.1, h.2⟩

/-! ### A script that is itself renamed -/

theorem subset_of_mem_split {sep : Char} {s piece : Text} (h : piece ∈ Text.split sep s) :
    piece ⊆ s := by
  intro c hc
  rw [← Text.flatten_pieces sep s, List.mem_append, List.mem_flatten]
  rcases List.mem_append.mp h with hpiece | hlast
  · exact .inl ⟨piece ++ [sep], List.mem_map_of_mem hpiece, List.mem_append_left _ hc⟩
  · rw [List.mem_singleton] at hlast
    exact .inr (hlast ▸ hc)

theorem fileName_subset {path name : Text} (h : fileName path = some name) : name ⊆ path := by
  unfold fileName at h
  rcases hlast : (PathBuf.comparedComponents path).getLast? with _ | last
  · simp [hlast] at h
  · simp only [hlast] at h
    split_ifs at h
    rw [Option.some.injEq] at h
    subst h
    have hmem := List.mem_of_getLast? hlast
    have hcomponent : last ∈ PathBuf.components path := by
      unfold PathBuf.comparedComponents at hmem
      split_ifs at hmem
      · exact List.mem_of_mem_filter hmem
      · rcases List.mem_append.mp hmem with hfirst | hrest
        · exact List.mem_of_mem_take hfirst
        · exact List.mem_of_mem_drop (List.mem_of_mem_filter hrest)
    exact subset_of_mem_split (List.mem_of_mem_filter hcomponent)

theorem utf8Text_subset (src : Text) (node : Node) : node.utf8Text src ⊆ src :=
  fun _ hc => List.mem_of_mem_drop (List.mem_of_mem_take hc)

theorem stripQuotes_subset {c : Char} {s taken : Text}
    (h : (Text.stripPrefix [c] s).bind (Text.stripSuffixChar c) = some taken) : taken ⊆ s := by
  obtain ⟨rest, hrest, htaken⟩ := Option.bind_eq_some_iff.mp h
  obtain ⟨first, hs, -⟩ := List.dropPrefix?_eq_some_iff.mp hrest
  unfold Text.stripSuffixChar at htaken
  split_ifs at htaken
  rw [Option.some.injEq] at htaken
  rw [← htaken, hs]
  exact fun d hd => List.mem_append_right first (List.dropLast_subset rest hd)

theorem parsePart_subset {src taken : Text} {node : Node} (h : parsePart src node = some taken) :
    taken ⊆ src := by
  unfold parsePart at h
  split at h
  · rw [Option.some.injEq] at h
    exact h ▸ utf8Text_subset src node
  · rw [Option.some.injEq] at h
    exact h ▸ utf8Text_subset src node
  · unfold parseDoubleQuotedString at h
    split_ifs at h
    exact fun c hc => utf8Text_subset src node (stripQuotes_subset h hc)
  · unfold parseRawString at h
    split_ifs at h
    exact fun c hc => utf8Text_subset src node (stripQuotes_subset h hc)
  · simp at h

theorem parseArgument_subset {src taken : Text} {node : Node}
    (h : parseArgument src node = some taken) : taken ⊆ src := by
  by_cases hconcatenation : node.kind = .concatenation
  · simp only [parseArgument, hconcatenation, parseConcatenation, Option.bind_eq_bind,
      Option.bind_eq_some_iff] at h
    obtain ⟨parts, hparts, h⟩ := h
    split_ifs at h
    rw [Option.some.injEq] at h
    subst h
    intro c hc
    obtain ⟨part, hpart, hc⟩ := List.mem_flatten.mp hc
    obtain ⟨child, -, hchild⟩ := exists_of_mem_mapM hparts hpart
    exact parsePart_subset hchild hc
  · by_cases hname : node.kind = .commandName
    · simp only [parseArgument, hname, Option.bind_eq_bind, Option.bind_eq_some_iff] at h
      obtain ⟨word, -, h⟩ := h
      split_ifs at h
      rw [Option.some.injEq] at h
      exact h ▸ utf8Text_subset src word
    · have hpart : parsePart src node = some taken := by
        unfold parseArgument at h
        unfold parsePart
        split at h
        · contradiction
        all_goals simp_all
      exact parsePart_subset hpart

/-- A script of the letters of `bash` has no safe command. -/
theorem not_isSafe_of_bash {tree : Tree} {commands : List (List Text)} {targetIsLinux : Bool}
    (haccept : tryParseWordOnlyCommandsSequence tree "bash".toList = some commands)
    {command : List Text} (hcommand : command ∈ commands) :
    isSafeToCallWithExec targetIsLinux command = false := by
  by_contra hsafe
  rw [Bool.not_eq_false] at hsafe
  obtain ⟨name, rest, key, rfl, hname, hkey⟩ := key_mem_judgedNames hsafe
  unfold tryParseWordOnlyCommandsSequence at haccept
  split_ifs at haccept
  obtain ⟨nodes, -, hparse⟩ := Option.bind_eq_some_iff.mp haccept
  obtain ⟨node, -, hwords⟩ := exists_of_mem_mapM hparse hcommand
  unfold parsePlainCommandFromNode at hwords
  split_ifs at hwords
  obtain ⟨argument, -, hargument⟩ := exists_of_mem_mapM hwords (List.mem_cons_self ..)
  have hletters : key ⊆ "bash".toList :=
    fun c hc => parseArgument_subset hargument (fileName_subset hname hc)
  have hnone : ∀ key ∈ judgedNames, (key.all fun c => c ∈ "bash".toList) = false := by
    decide
  have hall : (key.all fun c => c ∈ "bash".toList) = true := by
    rw [List.all_eq_true]
    exact fun c hc => decide_eq_true (hletters hc)
  rw [hnone key hkey] at hall
  cases hall

/-! ### What is judged and what runs -/

/-- The arguments that are returned are those that the shell runs the commands with, and if the
script is known to be safe, each command that runs is. -/
def JudgesWhatRuns (braces : BraceExpansion) (tryParseShell : TryParseShell) (targetIsLinux : Bool)
    (script : Text) (tree : Tree) (commands : List (List Text)) : Prop :=
  (∃ nodes, commandNodes tree = some nodes ∧
      commands.map asWords = nodes.map (executedWords braces script)) ∧
    ∀ shell flag, (extractBashCommand [shell, flag, script]).isSome →
      isKnownSafeCommand tryParseShell targetIsLinux [shell, flag, script] = true →
        ∀ node ∈ tree.root.descendants, node.kind = .command →
          isSafeToCallWithExec targetIsLinux (executedArguments braces script node) = true

/-- A command of bare words, by their spans. -/
def bareCommand (length : Nat) (name : Nat × Nat) (arguments : List (Nat × Nat)) : Tree where
  root := .mk .program 0 length [.mk .command 0 length
    (.mk .commandName name.1 name.2 [.mk .word name.1 name.2 []] ::
      arguments.map fun span => .mk .word span.1 span.2 [])]
  hasError := false

theorem grammarForm_word {src : Text} {startByte endByte : Nat}
    (h : WordText ((src.drop startByte).take (endByte - startByte))) :
    GrammarForm src (.mk .word startByte endByte []) where
  word _ := h
  number hkind := by simp [Node.kind] at hkind
  string hkind := by simp [Node.kind] at hkind
  rawString hkind := by simp [Node.kind] at hkind
  concatenation hkind := by simp [Node.kind] at hkind
  commandName hkind := by simp [Node.kind] at hkind

theorem grammarForm_commandName {src : Text} {startByte endByte : Nat} :
    GrammarForm src (.mk .commandName startByte endByte [.mk .word startByte endByte []]) where
  word hkind := by simp [Node.kind] at hkind
  number hkind := by simp [Node.kind] at hkind
  string hkind := by simp [Node.kind] at hkind
  rawString hkind := by simp [Node.kind] at hkind
  concatenation hkind := by simp [Node.kind] at hkind
  commandName _ := ⟨_, rfl, rfl, rfl⟩

theorem grammarForm_container {src : Text} {node : Node}
    (h : node.kind = .program ∨ node.kind = .command) : GrammarForm src node := by
  constructor
  all_goals
    intro hkind
    rw [hkind] at h
    simp at h

theorem isGrammarTree_bareCommand {src : Text} {length : Nat} {name : Nat × Nat}
    {arguments : List (Nat × Nat)}
    (h : ∀ span ∈ name :: arguments, WordText ((src.drop span.1).take (span.2 - span.1))) :
    IsGrammarTree src (bareCommand length name arguments) := by
  intro node hnode
  simp only [bareCommand, Node.descendants, Node.descendantsOf, descendantsOf_eq,
    List.flatMap_map, List.append_nil, List.mem_cons, List.cons_append, List.nil_append,
    List.mem_flatMap, List.not_mem_nil, or_false] at hnode
  rcases hnode with rfl | rfl | rfl | rfl | ⟨span, hspan, rfl⟩
  · exact grammarForm_container (.inl rfl)
  · exact grammarForm_container (.inr rfl)
  · exact grammarForm_commandName
  · exact grammarForm_word (h name (List.mem_cons_self ..))
  · exact grammarForm_word (h span (List.mem_cons_of_mem _ hspan))

/-- The parser on one script. -/
def parsesAs (script : Text) (tree : Tree) : TryParseShell := fun s =>
  if s = script then some tree else none

/-- The word `-{delete,print}`, and what `bash` makes of it; no other word is expanded. -/
def bracedOption : Text := "-\x7bdelete,print\x7d".toList

def bracesOfOption : BraceExpansion where
  expand s := if s = bracedOption then ["-delete".toList, "-print".toList] else [s]
  expand_of_noBraces s h := by
    split
    · rename_i heq
      subst heq
      exact absurd h (by decide)
    · rfl
  shorter_of_single s word h := by
    split at h
    · simp at h
    · exact .inl (List.singleton_inj.mp h).symm

/-- `find . -{delete,print}`: the last argument is a concatenation of bare words. -/
def bracedTree : Tree where
  root := .mk .program 0 22 [.mk .command 0 22 [.mk .commandName 0 4 [.mk .word 0 4 []],
    .mk .word 5 6 [], .mk .concatenation 7 22 [.mk .word 7 8 [], .mk .word 8 9 [],
      .mk .word 9 21 [], .mk .word 21 22 []]]]
  hasError := false

def bracedScript : Text := "find . ".toList ++ bracedOption

theorem isGrammarTree_bracedTree : IsGrammarTree bracedScript bracedTree := by
  have hword : ∀ startByte endByte, GrammarForm bracedScript (.mk .word startByte endByte []) := by
    intro startByte endByte
    refine grammarForm_word (wordText_of_plain fun c hc => ?_)
    have hplain : bracedScript.all (fun c => c ≠ '\\' && c ≠ '\'' && c ≠ '"') = true := by decide
    have hfree := List.all_eq_true.mp hplain c (List.mem_of_mem_drop (List.mem_of_mem_take hc))
    simpa [and_assoc] using hfree
  intro node hnode
  simp only [bracedTree, Node.descendants, Node.descendantsOf, List.append_nil, List.mem_cons,
    List.cons_append, List.nil_append, List.not_mem_nil, or_false] at hnode
  rcases hnode with rfl | rfl | rfl | rfl | rfl | rfl | rfl | rfl | rfl | rfl
  · exact grammarForm_container (.inl rfl)
  · exact grammarForm_container (.inr rfl)
  · exact grammarForm_commandName
  · exact hword 0 4
  · exact hword 5 6
  · exact
      { word := fun hkind => by simp [Node.kind] at hkind
        number := fun hkind => by simp [Node.kind] at hkind
        string := fun hkind => by simp [Node.kind] at hkind
        rawString := fun hkind => by simp [Node.kind] at hkind
        concatenation := fun _ => ⟨by decide, by simp [Node.children, Node.isNamed, Node.kind]⟩
        commandName := fun hkind => by simp [Node.kind] at hkind }
  · exact hword 7 8
  · exact hword 8 9
  · exact hword 9 21
  · exact hword 21 22

theorem isGrammarTree_escaped :
    IsGrammarTree "find . -del\\ete".toList (bareCommand 15 (0, 4) [(5, 6), (7, 15)]) := by
  refine isGrammarTree_bareCommand ?_
  intro span hspan
  simp only [List.mem_cons, List.not_mem_nil, or_false] at hspan
  rcases hspan with rfl | rfl | rfl
  · exact wordText_of_plain (by simp)
  · exact wordText_of_plain (by simp)
  · refine .plain _ (by decide) (by decide) (by decide) (.plain _ (by decide) (by decide)
      (by decide) (.plain _ (by decide) (by decide) (by decide) (.plain _ (by decide) (by decide)
        (by decide) (.escape _ ?_))))
    exact show WordText "te".toList from wordText_of_plain (by simp)

/-- The script is accepted, and what is judged is not what runs. -/
def AcceptedUnjudged (script : Text) (tree : Tree) (commands : List (List Text)) : Prop :=
  IsGrammarTree script tree ∧
    tryParseWordOnlyCommandsSequence tree script = some commands ∧
    isKnownSafeCommand (parsesAs script tree) true ["bash".toList, "-lc".toList, script] = true ∧
    ¬ JudgesWhatRuns bracesOfOption (parsesAs script tree) true script tree commands

theorem acceptedUnjudged_of_refused {script : Text} {tree : Tree} {commands : List (List Text)}
    (hgrammar : IsGrammarTree script tree)
    (haccept : tryParseWordOnlyCommandsSequence tree script = some commands)
    (hsafe : isKnownSafeCommand (parsesAs script tree) true
      ["bash".toList, "-lc".toList, script] = true)
    (hrefused : ∃ node ∈ tree.root.descendants, node.kind = .command ∧
      isSafeToCallWithExec true (executedArguments bracesOfOption script node) = false) :
    AcceptedUnjudged script tree commands := by
  refine ⟨hgrammar, haccept, hsafe, ?_⟩
  rintro ⟨-, hjudged⟩
  obtain ⟨node, hnode, hkind, hno⟩ := hrefused
  have hshell : (extractBashCommand ["bash".toList, "-lc".toList, script]).isSome := by
    have hbash : detectShellType "bash".toList = some .bash := by decide +kernel
    rw [extractBashCommand, if_pos ⟨.inl rfl, .inr (.inl hbash)⟩]
    rfl
  rw [hjudged "bash".toList "-lc".toList hshell hsafe node hnode hkind] at hno
  cases hno

end Codewith.Shell
