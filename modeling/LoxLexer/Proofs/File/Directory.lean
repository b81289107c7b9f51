import LoxLexer.File.Directory
import LoxLexer.Proofs.Program.Outcome

/-!
# Where paths lead

A path is followed name by name, so a path with a slash and more behind it is followed like the path
itself and then on from there (`walk_append`). A walk that has failed stays failed with the same
answer, and a walk that has come to a file fails at the next name, whatever it is. Names that lead
down come to a file unless another file is on the way (`foldlM_enter_of_lookup`).

## Results

* `access_of_no_file`: what can be wrong with a path.
* `access_append_of_contents`: no path leads on through a file.
* `access_append_of_missing`: nothing is found behind what is missing.
* `access_dot`: a dot in front of a path changes nothing.
* `Listed`, `access_of_listed`: a file is found under its own path.
* `runProgram_listed`: a script in a directory is listed by its path.
-/

namespace LoxLexer

/-! ## Names -/

/-- A name that leads down. -/
structure Name.IsPlain (name : Name) : Prop where
  ne_nil : name ≠ []
  ne_dot : name ≠ ['.']
  ne_dots : name ≠ ['.', '.']
  byteLength_le : name.byteLength ≤ longestName

theorem pathNames_append (path more : String) :
    pathNames (path ++ "/" ++ more) = pathNames path ++ pathNames more := by
  have hslash : (path ++ "/" ++ more).toList = path.toList ++ '/' :: more.toList := by simp
  unfold pathNames
  rw [hslash]
  exact List.splitOn_append_cons_self _ _

theorem pathNames_injective : Function.Injective pathNames := by
  intro p q h
  have hjoin := congrArg (List.intercalate ['/']) h
  unfold pathNames at hjoin
  rwa [List.intercalate_splitOn, List.intercalate_splitOn, String.toList_inj] at hjoin

/-- A path and one that goes on from it are counted from the same place. -/
theorem ofPath_append {path : String} (h : path ≠ "") (more : String) :
    Base.ofPath (path ++ "/" ++ more) = Base.ofPath path := by
  obtain ⟨c, text, htext⟩ := List.exists_cons_of_ne_nil (mt String.toList_eq_nil_iff.mp h)
  simp [Base.ofPath, htext]

theorem mem_of_lookup {tree : Tree} {names : List Name} {bytes : ByteArray}
    (h : tree.lookup names = some bytes) : (names, bytes) ∈ tree := by
  obtain ⟨front, back, rfl, -⟩ := List.lookup_eq_some_iff.mp h
  simp

namespace Directory

variable {d : Directory} {path : String}

/-! ## Walks -/

theorem enter_plain (base : Base) (names : List Name) {name : Name} (h : name.IsPlain) :
    d.enter (.directory base names) name =
      (d.find? base (names ++ [name])).elim (.error .missing) .ok := by
  have hname : ¬ (name = [] ∨ name = ['.']) := not_or.mpr ⟨h.ne_nil, h.ne_dot⟩
  unfold enter
  dsimp only
  rw [if_neg hname, if_neg h.ne_dots, if_neg (Nat.not_lt.mpr h.byteLength_le)]
  cases d.find? base (names ++ [name]) <;> rfl

/-- Why a walk fails: a name is not there, is too long, or is looked for in a file. -/
inductive Refusal : Access → Prop
  | missing : Refusal .missing
  | throughFile : Refusal (.failed .notADirectory)
  | longName : Refusal (.failed .nameTooLong)

theorem refusal_of_enter {place : Place} {name : Name} {result : Access}
    (h : d.enter place name = .error result) : Refusal result := by
  cases place with
  | file =>
    cases h
    exact .throughFile
  | directory base names =>
    unfold enter at h
    dsimp only at h
    split_ifs at h with hstay hup hlong
    · cases h
      exact .longName
    · cases hfind : d.find? base (names ++ [name]) with
      | some place =>
        rw [hfind] at h
        cases h
      | none =>
        rw [hfind] at h
        cases h
        exact .missing

theorem refusal_of_foldlM {place : Place} {names : List Name} {result : Access}
    (h : names.foldlM d.enter place = .error result) : Refusal result := by
  induction names generalizing place with
  | nil => cases h
  | cons name names ih =>
    rw [List.foldlM_cons] at h
    cases hplace : d.enter place name with
    | error refused =>
      rw [hplace] at h
      cases h
      exact refusal_of_enter hplace
    | ok next =>
      rw [hplace] at h
      exact ih h

theorem walk_append (h : path ≠ "") (more : String) :
    d.walk (path ++ "/" ++ more) = d.walk path >>= (pathNames more).foldlM d.enter := by
  unfold walk
  rw [ofPath_append h, pathNames_append, List.foldlM_append]

/-! ## Answers -/

theorem access_of_walk (hne : path ≠ "") (hshort : path.utf8ByteSize ≤ longestPath) :
    d.access path = .ofWalk (d.walk path) := by
  unfold access
  rw [if_neg (by simpa using hne), if_neg (Nat.not_lt.mpr hshort)]

/-- **A path that leads to no file** is missing, or one of three things is wrong with it. -/
theorem access_of_no_file (h : ∀ bytes, d.access path ≠ .contents bytes) :
    d.access path = .missing ∨
      ∃ e ∈ [SystemError.notADirectory, .isADirectory, .nameTooLong], d.access path = .failed e := by
  unfold access at h ⊢
  split_ifs at h ⊢
  · exact Or.inl rfl
  · exact Or.inr ⟨.nameTooLong, by simp, rfl⟩
  · cases hwalk : d.walk path with
    | error result =>
      cases refusal_of_foldlM hwalk with
      | missing => exact Or.inl rfl
      | throughFile => exact Or.inr ⟨.notADirectory, by simp, rfl⟩
      | longName => exact Or.inr ⟨.nameTooLong, by simp, rfl⟩
    | ok place =>
      cases place with
      | file bytes => exact absurd (congrArg Access.ofWalk hwalk) (h bytes)
      | directory => exact Or.inr ⟨.isADirectory, by simp, rfl⟩

/-- What a path that goes on comes to, if it is not too long. -/
theorem access_append (hne : path ≠ "") {more : String}
    (hshort : (path ++ "/" ++ more).utf8ByteSize ≤ longestPath) :
    d.access path = .ofWalk (d.walk path) ∧
      d.access (path ++ "/" ++ more) =
        .ofWalk (d.walk path >>= (pathNames more).foldlM d.enter) := by
  have hshort' : path.utf8ByteSize ≤ longestPath := by
    simp only [String.utf8ByteSize_append] at hshort
    omega
  refine ⟨access_of_walk hne hshort', ?_⟩
  rw [access_of_walk (by simp) hshort, walk_append hne]

/-- **No path leads on through a file**, not even back to the directory it is in. -/
theorem access_append_of_contents {bytes : ByteArray} (h : d.access path = .contents bytes)
    {more : String} (hshort : (path ++ "/" ++ more).utf8ByteSize ≤ longestPath) :
    d.access (path ++ "/" ++ more) = .failed .notADirectory := by
  have hne : path ≠ "" := by
    rintro rfl
    cases h
  obtain ⟨hpath, hmore⟩ := access_append (d := d) hne hshort
  rw [h] at hpath
  cases hwalk : d.walk path with
  | error result =>
    rw [hwalk] at hpath
    cases hpath
    cases refusal_of_foldlM hwalk
  | ok place =>
    rw [hwalk] at hpath hmore
    cases place with
    | directory => cases hpath
    | file =>
      obtain ⟨name, names, hnames⟩ := List.exists_cons_of_ne_nil
        (List.splitOn_ne_nil '/' more.toList)
      rw [hmore, pathNames, hnames]
      rfl

/-- Back up is a name as well. -/
example : runProgram ["t/../t"] (ofFiles [("t", "a".toUTF8)] .empty).access .empty =
    ⟨"", "", .fatal (.system .notADirectory)⟩ := by decide +kernel

/-- **Nothing is found behind what is missing.** The empty path is missing too, and what is behind
it is counted from the root. -/
theorem access_append_of_missing (h : d.access path = .missing) (hne : path ≠ "") {more : String}
    (hshort : (path ++ "/" ++ more).utf8ByteSize ≤ longestPath) :
    d.access (path ++ "/" ++ more) = .missing := by
  obtain ⟨hpath, hmore⟩ := access_append (d := d) hne hshort
  rw [h] at hpath
  cases hwalk : d.walk path with
  | error result =>
    rw [hwalk] at hpath hmore
    rw [hmore]
    exact hpath.symm
  | ok place =>
    rw [hwalk] at hpath
    cases place <;> cases hpath

/-- **A dot in front of a path changes nothing**, if the path is not counted from the root. -/
theorem access_dot (hne : path ≠ "") (hbase : Base.ofPath path = .working)
    (hshort : ("." ++ "/" ++ path).utf8ByteSize ≤ longestPath) :
    d.access ("." ++ "/" ++ path) = d.access path := by
  have hdot : d.walk "." = .ok (.directory .working []) := rfl
  have hshort' : path.utf8ByteSize ≤ longestPath := by
    simp only [String.utf8ByteSize_append] at hshort
    omega
  rw [(access_append (by simp) hshort).2, hdot, access_of_walk hne hshort', walk, hbase]
  rfl

/-! ## Files that are listed -/

theorem find?_file {base : Base} {names : List Name} {bytes : ByteArray}
    (h : (d.tree base).lookup names = some bytes) : d.find? base names = some (.file bytes) := by
  rw [find?, h]

theorem find?_directory {base : Base} {names rest : List Name} {bytes : ByteArray}
    (hnone : (d.tree base).lookup names = none) (hmem : (names ++ rest, bytes) ∈ d.tree base) :
    d.find? base names = some (.directory base names) := by
  have hbelow : ((d.tree base).any fun f => names.isPrefixOf f.1) = true :=
    List.any_eq_true.mpr ⟨_, hmem, List.isPrefixOf_iff_prefix.mpr (List.prefix_append _ _)⟩
  rw [find?, hnone]
  exact if_pos hbelow

/-- Names lead down to a file if no other file is on the way. -/
theorem foldlM_enter_of_lookup {base : Base} {front rest : List Name} {bytes : ByteArray}
    (hfile : (d.tree base).lookup (front ++ rest) = some bytes) (hne : rest ≠ [])
    (hplain : ∀ name ∈ rest, name.IsPlain)
    (hway : ∀ f ∈ d.tree base, f.1 <+: front ++ rest → f.1 = front ++ rest) :
    rest.foldlM d.enter (.directory base front) = .ok (.file bytes) := by
  induction rest generalizing front with
  | nil => exact absurd rfl hne
  | cons name rest ih =>
    have hsplit : front ++ name :: rest = front ++ [name] ++ rest := by simp
    rw [hsplit] at hfile hway
    rw [List.foldlM_cons, enter_plain base front (hplain name List.mem_cons_self)]
    by_cases hrest : rest = []
    · subst hrest
      rw [List.append_nil] at hfile
      rw [find?_file hfile]
      rfl
    · have hnone : (d.tree base).lookup (front ++ [name]) = none := by
        cases hlookup : (d.tree base).lookup (front ++ [name]) with
        | none => rfl
        | some other =>
          have hsame := hway _ (mem_of_lookup hlookup) (List.prefix_append _ rest)
          exact absurd (List.self_eq_append_right.mp hsame) hrest
      rw [find?_directory hnone (mem_of_lookup hfile)]
      exact ih hfile hrest (fun n hn => hplain n (List.mem_cons_of_mem name hn)) hway

end Directory

section
variable {files : List (String × ByteArray)} {path : String}

/-- Different paths are different names. -/
theorem lookup_pathNames (files : List (String × ByteArray)) (path : String) :
    (files.map fun f => (pathNames f.1, f.2)).lookup (pathNames path) = files.lookup path := by
  induction files with
  | nil => rfl
  | cons f files ih =>
    have hkey : (pathNames path == pathNames f.1) = (path == f.1) := by
      rw [Bool.eq_iff_iff, beq_iff_eq, beq_iff_eq, pathNames_injective.eq_iff]
    rw [List.map_cons, List.lookup_cons, List.lookup_cons, hkey, ih]

/-- A file that can be had under its own path: all names in the path lead down, no other file is on
the way, and the path is not too long. -/
structure Listed (files : List (String × ByteArray)) (path : String) (bytes : ByteArray) : Prop where
  lookup_eq : files.lookup path = some bytes
  isPlain : ∀ name ∈ pathNames path, name.IsPlain
  eq_of_way : ∀ f ∈ files, pathNames f.1 <+: pathNames path → f.1 = path
  size_le : path.utf8ByteSize ≤ longestPath

/-- A path of plain names is counted from the directory itself, and there is one. -/
theorem ofPath_of_plain (hplain : ∀ name ∈ pathNames path, name.IsPlain) :
    path ≠ "" ∧ Base.ofPath path = .working := by
  constructor
  · rintro rfl
    exact (hplain [] (by simp [pathNames])).ne_nil rfl
  · unfold Base.ofPath
    refine if_neg ?_
    intro hslash
    obtain ⟨text, htext⟩ := List.head?_eq_some_iff.mp hslash
    exact (hplain [] (by simp [pathNames, htext, List.splitOn_cons_eq_if_modifyHead])).ne_nil rfl

/-- **A file is found under its own path**, whatever other files there are. -/
theorem access_of_listed {bytes : ByteArray} (h : Listed files path bytes) (stdin : ByteArray) :
    (Directory.ofFiles files stdin).access path = .contents bytes := by
  obtain ⟨hne, hbase⟩ := ofPath_of_plain h.isPlain
  have hwalk : (Directory.ofFiles files stdin).walk path = .ok (.file bytes) := by
    unfold Directory.walk
    rw [hbase]
    refine Directory.foldlM_enter_of_lookup ((lookup_pathNames files path).trans h.lookup_eq)
      (List.splitOn_ne_nil _ _) h.isPlain ?_
    intro f hf hfront
    obtain ⟨g, hg, rfl⟩ := List.mem_map.mp hf
    exact congrArg pathNames (h.eq_of_way g hg hfront)
  rw [Directory.access_of_walk hne h.size_le, hwalk]
  rfl

/-- **A script in a directory is listed by its path.** -/
theorem runProgram_listed {text : String} (h : Listed files path text.toUTF8)
    (stdin : ByteArray) :
    runProgram [path] (Directory.ofFiles files stdin).access stdin =
      ⟨listing (scan text).tokens, (scan text).report,
        .exit (if (scan text).errors = [] then 0 else 65)⟩ := by
  unfold runProgram
  dsimp only
  rw [access_of_listed h stdin]
  exact runScript_of_text path text

end

end LoxLexer
