import LambdaCalculus.Command.FileTree
import Mathlib.Data.List.TakeWhile

/-!
# Reading from a file tree

A path that spells the names of an entry leads to that entry, and no path leads
to anything that is not in the tree.  So the program can read the files of a tree
and nothing else.
-/

namespace LambdaCalculus

/-- The pieces of a path are what its slashes separate. -/
theorem pathPieces_eq_splitOn
    (path : Text) :
    pathPieces path = path.splitOn slash := by
  induction path with
  | nil => rfl
  | cons byte rest inductionHypothesis =>
      rw [List.splitOn_cons_eq_if_modifyHead, pathPieces, inductionHypothesis]
      simp only [beq_iff_eq]
      split
      next => rfl
      next =>
          obtain ⟨first, others, isCons⟩ :=
            List.exists_cons_of_ne_nil (List.splitOn_ne_nil slash rest)
          rw [isCons]
          rfl

namespace FileTree

/-- A name that a path can spell: it is not empty, it is no reference to a
directory, and nothing in it ends the name or the path. -/
structure PlainName (name : Text) : Prop where
  /-- There is something to spell. -/
  nonempty : name ≠ []
  /-- The name is not that of the directory itself. -/
  notDot : name ≠ dot
  /-- Nor that of the directory above. -/
  notDotDot : name ≠ dotDot
  /-- No slash ends the name. -/
  noSlash : slash ∉ name
  /-- No NUL byte ends the path. -/
  noNul : 0 ∉ name
  /-- A directory can hold the name. -/
  short : name.length ≤ nameLimit

/-- The path that spells names. -/
def spell (names : List Text) : Text :=
  List.intercalate [slash] names

theorem mem_spell
    (member : byte ∈ spell names) :
    byte = slash ∨ ∃ name ∈ names, byte ∈ name := by
  induction names with
  | nil => cases member
  | cons name rest inductionHypothesis =>
      cases rest with
      | nil =>
          rw [spell, List.intercalate_singleton] at member
          exact Or.inr ⟨name, List.mem_cons_self, member⟩
      | cons next others =>
          rw [spell, List.intercalate_cons_cons, List.append_assoc,
            List.mem_append, List.singleton_append, List.mem_cons] at member
          rcases member with inName | isSlash | behind
          · exact Or.inr ⟨name, List.mem_cons_self, inName⟩
          · exact Or.inl isSlash
          · rcases inductionHypothesis behind with
              isSlash | ⟨other, isOther, inOther⟩
            · exact Or.inl isSlash
            · exact Or.inr ⟨other, List.mem_cons_of_mem name isOther, inOther⟩

/-- The names can be spelled in a path that is not too long. -/
structure Spellable (names : List Text) : Prop where
  /-- The root itself is spelled by no path. -/
  nonempty : names ≠ []
  /-- Each name can be spelled. -/
  plain : ∀ name ∈ names, PlainName name
  /-- The path is not too long. -/
  short : (spell names).length < pathLimit

namespace Spellable

variable {names : List Text}

theorem pathPieces
    (spellable : Spellable names) :
    LambdaCalculus.pathPieces (spell names) = names := by
  rw [pathPieces_eq_splitOn]
  exact List.splitOn_intercalate slash
    (fun name member => (spellable.plain name member).noSlash)
    spellable.nonempty

/-- A spelled path starts with a byte of its first name. -/
theorem exists_spell_eq
    (spellable : Spellable names) :
    ∃ first rest, spell names = first :: rest ∧ first ≠ slash := by
  obtain ⟨name, others, rfl⟩ := List.exists_cons_of_ne_nil spellable.nonempty
  have plain := spellable.plain name List.mem_cons_self
  obtain ⟨first, rest, rfl⟩ := List.exists_cons_of_ne_nil plain.nonempty
  have notSlash : first ≠ slash := by
    rintro rfl
    exact plain.noSlash List.mem_cons_self
  cases others with
  | nil => exact ⟨first, rest, List.intercalate_singleton, notSlash⟩
  | cons next others =>
      exact ⟨first, _, List.intercalate_cons_cons, notSlash⟩

/-- No NUL byte cuts a spelled path off. -/
theorem beforeNul
    (spellable : Spellable names) :
    (spell names).beforeNul = spell names := by
  apply List.takeWhile_eq_self_iff.mpr
  intro byte member
  rw [bne_iff_ne]
  rintro rfl
  rcases mem_spell member with isSlash | ⟨name, isName, inName⟩
  · cases isSlash
  · exact (spellable.plain name isName).noNul inName

end Spellable

variable {tree : FileTree}

/-! ## Entries -/

theorem isSome_node?_of_isDirectory
    (directory : tree.isDirectory names = true) :
    (tree.node? names).isSome = true := by
  unfold node?
  split
  next => rfl
  next =>
      rw [if_pos directory]
      rfl

/-- What stands above an entry is a directory. -/
theorem isDirectory_of_below
    {above below : List Text}
    (present : (tree.node? (above ++ below)).isSome = true)
    (nonempty : below ≠ []) :
    tree.isDirectory above = true := by
  have isAbove : above <+: above ++ below := List.prefix_append above below
  unfold node? at present
  split at present
  next content found =>
      obtain ⟨before, behind, isEntry, _⟩ := List.lookup_eq_some_iff.mp found
      have shorter : above.length < (above ++ below).length := by
        have positive := List.length_pos_iff.mpr nonempty
        rw [List.length_append]
        omega
      simp only [isDirectory, isEntry, List.any_append, List.any_cons,
        List.isPrefixOf_iff_prefix.mpr isAbove, decide_eq_true shorter,
        Bool.and_true, Bool.true_or, Bool.or_true]
  next =>
      split at present
      next directory =>
          have notRoot : (above ++ below).isEmpty = false := by
            simp [nonempty]
          rw [isDirectory, notRoot, Bool.false_or, Bool.or_eq_true,
            List.any_eq_true, List.any_eq_true] at directory
          rw [isDirectory, Bool.or_eq_true, Bool.or_eq_true, List.any_eq_true,
            List.any_eq_true]
          rcases directory with ⟨listed, member, isPrefix⟩ |
            ⟨entry, member, isPrefix⟩
          · refine Or.inl (Or.inr ⟨listed, member, ?_⟩)
            rw [List.isPrefixOf_iff_prefix] at isPrefix ⊢
            exact isAbove.trans isPrefix
          · rw [Bool.and_eq_true, List.isPrefixOf_iff_prefix,
              decide_eq_true_eq] at isPrefix
            refine Or.inr ⟨entry, member, ?_⟩
            rw [Bool.and_eq_true, List.isPrefixOf_iff_prefix,
              decide_eq_true_eq]
            exact ⟨isAbove.trans isPrefix.1,
              Nat.lt_of_le_of_lt isAbove.length_le isPrefix.2⟩
      next => cases present

/-! ## Where paths lead -/

/-- From the directory above an entry the names below it lead to the entry. -/
theorem walk_append
    (above below : List Text)
    (present : (tree.node? (above ++ below)).isSome = true)
    (plain : ∀ name ∈ below, PlainName name) :
    tree.walk below (.inside above) = .ok (.inside (above ++ below)) := by
  induction below generalizing above with
  | nil =>
      rw [List.append_nil]
      rfl
  | cons name rest inductionHypothesis =>
      have directory := isDirectory_of_below present (List.cons_ne_nil name rest)
      rw [List.append_cons] at present ⊢
      have next : (tree.node? (above ++ [name])).isSome = true := by
        cases rest with
        | nil =>
            rw [List.append_nil] at present
            exact present
        | cons further others =>
            exact isSome_node?_of_isDirectory
              (isDirectory_of_below present (List.cons_ne_nil further others))
      obtain ⟨nonempty, notDot, notDotDot, _, _, short⟩ :=
        plain name List.mem_cons_self
      have stays : (name.isEmpty || name == dot) = false := by
        simp [nonempty, notDot]
      have rises : (name == dotDot) = false := by
        simp [notDotDot]
      simp only [walk, directory, stays, rises, next, if_true, if_false,
        Bool.false_eq_true, Nat.not_lt.mpr short]
      exact inductionHypothesis (above ++ [name]) present
        fun other member => plain other (List.mem_cons_of_mem name member)

/-- The path that spells the names of an entry leads to it. -/
theorem resolve_spell
    (spellable : Spellable names)
    (present : (tree.node? names).isSome = true) :
    tree.resolve (spell names) = .ok (.inside names) := by
  obtain ⟨first, rest, isCons, notSlash⟩ := spellable.exists_spell_eq
  have nonempty : (spell names).isEmpty = false := by
    rw [isCons]
    rfl
  have relative : (spell names).head? ≠ some slash := by
    rw [isCons]
    exact fun same => notSlash (Option.some.inj same)
  have short : ¬ pathLimit ≤ (spell names).length :=
    Nat.not_le.mpr spellable.short
  rw [resolve]
  simp only [spellable.beforeNul, nonempty, Bool.false_eq_true, if_false, short,
    relative, spellable.pathPieces]
  exact walk_append [] names present spellable.plain

/-- The place is an entry of the tree, or it is above the root. -/
def HasPlace
    (tree : FileTree) : Place -> Prop
  | .inside names => (tree.node? names).isSome = true
  | .above => True

/-- A walk that starts at an entry ends at one. -/
theorem hasPlace_of_walk
    (pieces : List Text)
    (start : Place)
    (starts : tree.HasPlace start)
    (walked : tree.walk pieces start = .ok place) :
    tree.HasPlace place := by
  induction pieces generalizing start with
  | nil =>
      cases walked
      exact starts
  | cons piece rest inductionHypothesis =>
      cases start with
      | above =>
          rw [walk] at walked
          split at walked
          next => exact inductionHypothesis .above trivial walked
          next => split at walked <;> cases walked
      | inside names =>
          rw [walk] at walked
          split at walked
          next directory =>
              split at walked
              next => exact inductionHypothesis (.inside names) starts walked
              next =>
              split at walked
              next =>
                  split at walked
                  next => exact inductionHypothesis .above trivial walked
                  next notRoot =>
                      refine inductionHypothesis _ ?_ walked
                      have nonempty : names ≠ [] := by
                        simpa using notRoot
                      rw [← List.dropLast_concat_getLast nonempty] at directory
                      exact isSome_node?_of_isDirectory (isDirectory_of_below
                        (isSome_node?_of_isDirectory directory) (by simp))
              next =>
              split at walked
              next => cases walked
              next =>
              split at walked
              next present =>
                  exact inductionHypothesis (.inside (names ++ [piece])) present
                    walked
              next => cases walked
          next => cases walked

/-- A path leads to an entry, or above the root. -/
theorem hasPlace_of_resolve
    (resolved : tree.resolve path = .ok place) :
    tree.HasPlace place := by
  have root : tree.HasPlace (.inside []) :=
    isSome_node?_of_isDirectory rfl
  unfold resolve at resolved
  simp only at resolved
  split at resolved
  next => cases resolved
  next =>
  split at resolved
  next => cases resolved
  next =>
  split at resolved
  next => cases resolved
  next => exact hasPlace_of_walk _ _ root resolved

/-! ## The files of the program -/

/-- The program reads the bytes of a file under the path that spells its names,
and the log shows the names behind the root. -/
theorem toFiles_spell
    (spellable : Spellable names)
    (stored : tree.files.lookup names = some content) :
    tree.toFiles.textOf (spell names) = .ok (fileText content) ∧
      tree.toFiles.canonical (spell names) = spell (tree.root :: names) := by
  have isFile : tree.node? names = some (.file content) := by
    rw [node?, stored]
  have resolved := resolve_spell spellable (Option.isSome_of_eq_some isFile)
  constructor
  · rw [Files.textOf]
    change (tree.read (spell names)).map fileText = _
    rw [read, resolved]
    simp only [isFile]
    rfl
  · obtain ⟨first, rest, isCons, _⟩ := spellable.exists_spell_eq
    change tree.canonical (spell names) = _
    rw [canonical, resolved, isCons]
    simp [canonicalPlace, LexicalPath.text, spell]

/-- What is read under a path are the bytes of the file that it leads to. -/
theorem read_eq_ok
    (isRead : tree.read path = .ok content) :
    ∃ names, tree.resolve path = .ok (.inside names) ∧
      tree.files.lookup names = some content := by
  unfold read at isRead
  split at isRead
  next => cases isRead
  next => cases isRead
  next names resolved =>
      refine ⟨names, resolved, ?_⟩
      unfold node? at isRead
      cases stored : tree.files.lookup names with
      | some found =>
          rw [stored] at isRead
          exact congrArg some (Except.ok.inj isRead)
      | none =>
          rw [stored] at isRead
          simp only at isRead
          split at isRead
          next isFile =>
              split at isFile <;> cases isFile
          next => cases isRead

/-- If the names of all files can be spelled, the texts that the program can read
are those of the files. -/
theorem textOf_toFiles_iff
    (spellable : ∀ entry ∈ tree.files, Spellable entry.1)
    (text : Text) :
    (∃ path, tree.toFiles.textOf path = .ok text) ↔
      ∃ names content, tree.files.lookup names = some content ∧
        fileText content = text := by
  constructor
  · rintro ⟨path, isText⟩
    change (tree.read path).map fileText = .ok text at isText
    cases isRead : tree.read path with
    | error error =>
        rw [isRead] at isText
        cases isText
    | ok content =>
        rw [isRead] at isText
        obtain ⟨names, _, stored⟩ := read_eq_ok isRead
        exact ⟨names, content, stored, Except.ok.inj isText⟩
  · rintro ⟨names, content, stored, rfl⟩
    obtain ⟨before, behind, isEntry, _⟩ := List.lookup_eq_some_iff.mp stored
    have member : (names, content) ∈ tree.files := by
      rw [isEntry]
      simp
    exact ⟨spell names, (toFiles_spell (spellable _ member) stored).1⟩

example :
    let tree : FileTree := ⟨"/home", [(["d", "f"], "x")], []⟩
    tree.toFiles.read "d/./../d//f" = .ok "x" ∧
      tree.toFiles.read "d" = .error .notRegular ∧
      tree.toFiles.read "d/f/g" = .error .notDirectory ∧
      tree.toFiles.canonical "d/../d/f" = "/home/d/f" := by
  decide

end FileTree
end LambdaCalculus
