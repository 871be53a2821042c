import SimplyNode.HttpServer
import Mathlib.Data.List.TakeWhile

/-!
# Static Files Stay Inside

What `_resolvePath` returns is a canonical path below the directory of the prefix: the text of the
relative path has no two dots next to each other, so no component of it goes up. The test looks at
the text, though, and two dots may stand in a name, too. A file whose path below the directory has
such a name is not found.

## Main results

* `FileSystem.canonical_pathText`: the text of a canonical path leads to this path.
* `contains_relativeText_iff`: two dots are in the text of a relative path if it goes up or a name
  has them.
* `HttpServer.confined_iff_names`: paths are inside, and a file inside is resolved, iff no name on
  the way to it has two dots.
* `HttpServer.dotted_name_hidden`: a file that is not resolved.
-/

namespace SimplyNode

open Text

/-! ### The texts of paths -/

/-- A name is a step down. -/
theorem pathStep_name {name : Bytes} (h : IsName name) : pathStep name = .down name := by
  obtain ⟨-, -, hne, hdot, hdots⟩ := h
  rw [pathStep, if_neg (by simp only [hne, hdot, or_self, not_false_eq_true]), if_neg hdots]

/-- What stands in a joined text is a separator or stands in a part. -/
theorem mem_intercalate {x a : UInt8} {ls : List Bytes} (h : a ∈ [x].intercalate ls) :
    a = x ∨ ∃ l ∈ ls, a ∈ l := by
  induction ls with
  | nil => cases h
  | cons l ls ih =>
      rcases eq_or_ne ls [] with rfl | hne
      · rw [List.intercalate_singleton] at h
        exact Or.inr ⟨l, List.mem_cons_self, h⟩
      · rw [List.intercalate_cons_of_ne_nil hne, List.mem_append, List.mem_append] at h
        rcases h with (h | h) | h
        · exact Or.inr ⟨l, List.mem_cons_self, h⟩
        · exact Or.inl (List.mem_singleton.mp h)
        · obtain h | ⟨m, hm, ha⟩ := ih h
          · exact Or.inl h
          · exact Or.inr ⟨m, List.mem_cons_of_mem l hm, ha⟩

/-- A joined text is not empty if its first part is not. -/
theorem intercalate_ne_nil {x : UInt8} {l : Bytes} {ls : List Bytes} (h : l ≠ []) :
    [x].intercalate (l :: ls) ≠ [] := by
  rcases eq_or_ne ls [] with rfl | hne
  · rwa [List.intercalate_singleton]
  · rw [List.intercalate_cons_of_ne_nil hne]
    intro hnil
    exact h (List.append_eq_nil_iff.mp (List.append_eq_nil_iff.mp hnil).1).1

/-- A pattern without the separator is in one of the parts. -/
theorem isInfix_intercalate_iff {x : UInt8} {pattern : Bytes} {ls : List Bytes} (hx : x ∉ pattern)
    (hpattern : pattern ≠ []) :
    pattern <:+: [x].intercalate ls ↔ ∃ l ∈ ls, pattern <:+: l := by
  induction ls with
  | nil =>
      rw [List.intercalate_nil, List.infix_nil]
      exact ⟨fun h => absurd h hpattern, fun ⟨l, hl, _⟩ => absurd hl List.not_mem_nil⟩
  | cons l ls ih =>
      rcases eq_or_ne ls [] with rfl | hne
      · rw [List.intercalate_singleton]
        exact ⟨fun h => ⟨l, List.mem_cons_self, h⟩,
          fun ⟨m, hm, h⟩ => List.mem_singleton.mp hm ▸ h⟩
      · rw [List.intercalate_cons_of_ne_nil hne, List.append_assoc, List.exists_mem_cons_iff, ← ih]
        constructor
        · intro h
          rcases List.infix_append_iff_ne_nil.mp h with h | h | ⟨p, q, -, hq, rfl, -, hprefix⟩
          · exact Or.inl h
          · rcases List.infix_cons_iff.mp h with h | h
            · cases pattern with
              | nil => exact absurd rfl hpattern
              | cons c pattern =>
                  exact absurd ((List.cons_prefix_cons.mp h).1 ▸ List.mem_cons_self) hx
            · exact Or.inr h
          · cases q with
            | nil => exact absurd rfl hq
            | cons c q =>
                have hc : c = x := (List.cons_prefix_cons.mp hprefix).1
                exact absurd (List.mem_append_right p (hc ▸ List.mem_cons_self)) hx
        · rintro (h | h)
          · exact h.trans (List.prefix_append _ _).isInfix
          · exact h.trans
              ((List.suffix_append _ _).trans (List.suffix_append _ _)).isInfix

/-- The text of a path has no byte 0. -/
theorem zero_notMem_pathText {p : List Bytes} (h : ∀ name ∈ p, IsName name) :
    0 ∉ pathText p := by
  rw [pathText, List.mem_cons]
  rintro (h0 | h0)
  · cases h0
  · rcases mem_intercalate h0 with h0 | ⟨name, hname, h0⟩
    · cases h0
    · exact (h name hname).2.1 h0

/-- The text of a path has the steps of the path, and some that stay. -/
theorem walk_pathText {t : FileTree Bytes FileContent} {n : ℕ} {p : List Bytes}
    (h : ∀ name ∈ p, IsName name) :
    t.walk n [] (pathSteps (pathText p)) = t.walk n [] (p.map .down) := by
  rcases eq_or_ne p [] with rfl | hne
  · have hroot : pathSteps (pathText []) = [.stay, .stay] := by decide
    rw [hroot, FileTree.walk_stay, FileTree.walk_stay]
    rfl
  · have htext : pathText p = [47].intercalate ([] :: p) := by
      rw [List.intercalate_cons_of_ne_nil hne]
      rfl
    have hslash : ∀ l ∈ [] :: p, (47 : UInt8) ∉ l := by
      intro l hl
      rcases List.mem_cons.mp hl with rfl | hl
      · exact List.not_mem_nil
      · exact (h l hl).1
    have hdown : p.map pathStep = p.map .down :=
      List.map_congr_left fun name hname => pathStep_name (h name hname)
    rw [pathSteps, htext, List.splitOn_intercalate 47 hslash (List.cons_ne_nil _ _), List.map_cons,
      hdown]
    exact FileTree.walk_stay

/-! ### Canonical paths -/

namespace FileSystem

variable {fs : FileSystem}

/-- **A canonical path has no links.** -/
theorem canonical_reached {path : Bytes} {p : List Bytes} (h : fs.canonical path = some p) :
    fs.tree.Reached p := by
  rw [canonical] at h
  split at h
  · cases h
  · refine FileTree.walk_reached ?_ h
    split
    · exact FileTree.isDirectory_nil
    · exact fs.isDirectory

/-- What is reached has names. -/
theorem isName_of_reached {p : List Bytes} (h : fs.tree.Reached p) :
    ∀ name ∈ p, IsName name := by
  intro name hname
  refine fs.isName p name ?_ hname
  rcases h with h | ⟨p', a, content, -, -, hfile⟩
  · rw [h p List.prefix_rfl (List.ne_nil_of_mem hname)]
    simp
  · rw [hfile]
    simp

/-- **The text of a canonical path leads to this path.** -/
theorem canonical_pathText {p : List Bytes} (h : fs.tree.Reached p) :
    fs.canonical (pathText p) = some p := by
  have hnames := isName_of_reached h
  have htext : (pathText p).takeWhile (· ≠ 0) = pathText p := by
    refine List.takeWhile_eq_self_iff.mpr fun c hc => ?_
    have hc : c ≠ 0 := fun h0 => zero_notMem_pathText hnames (h0 ▸ hc)
    simpa using hc
  have hslash : (pathText p).head? = some 47 := rfl
  have hne : pathText p ≠ [] := List.cons_ne_nil _ _
  rw [canonical, if_neg hne, htext, if_pos hslash, walk_pathText hnames]
  exact FileTree.walk_down h

/-- The relative path between canonical ones. -/
theorem relative_reached {p base : List Bytes} (hp : fs.tree.Reached p)
    (hbase : fs.tree.Reached base) :
    fs.relative p base = some (relativeText (FileTree.relative p base)) := by
  rw [relative, canonical_pathText hp, canonical_pathText hbase]
  rfl

end FileSystem

/-! ### Relative paths -/

/-- The text of a relative path is not empty. -/
theorem relativeText_ne_nil {r : ℕ × List Bytes} (h : ∀ name ∈ r.2, IsName name) :
    relativeText r ≠ [] := by
  obtain ⟨n, q⟩ := r
  rw [relativeText]
  split
  · decide
  · rename_i hne
    cases n with
    | zero =>
        cases q with
        | nil => exact absurd rfl hne
        | cons name q => exact intercalate_ne_nil (h name List.mem_cons_self).2.2.1
    | succ n => exact intercalate_ne_nil (by decide)

/-- **Two dots are in the text of a relative path if it goes up or a name has them.** -/
theorem contains_relativeText_iff {r : ℕ × List Bytes} :
    contains (bytes "..") (relativeText r) = true ↔
      r.1 ≠ 0 ∨ ∃ name ∈ r.2, bytes ".." <:+: name := by
  obtain ⟨n, q⟩ := r
  rw [relativeText]
  split
  · rename_i h
    obtain ⟨rfl, rfl⟩ := Prod.mk.inj h
    simp only [List.not_mem_nil, false_and, exists_false, or_false, ne_eq, not_true_eq_false,
      iff_false]
    decide
  · rw [contains_iff_isInfix, isInfix_intercalate_iff (by decide) (by decide)]
    constructor
    · rintro ⟨l, hl, h⟩
      rcases List.mem_append.mp hl with hl | hl
      · exact Or.inl (List.mem_replicate.mp hl).1
      · exact Or.inr ⟨l, hl, h⟩
    · rintro (h | ⟨name, hname, h⟩)
      · exact ⟨bytes "..", List.mem_append_left q (List.mem_replicate.mpr ⟨h, rfl⟩),
          List.infix_rfl⟩
      · exact ⟨name, List.mem_append_right _ hname, h⟩

/-! ### Resolved paths -/

namespace HttpServer

variable {fs : FileSystem} {fsPath requestPath : Bytes} {base p : List Bytes}

/-- The decision, where both paths exist. -/
theorem resolvePath_eq (hbase : fs.canonical fsPath = some base)
    (hp : fs.canonical (joinPath fsPath requestPath) = some p) :
    resolvePath fs fsPath requestPath =
      if (FileTree.relative p base).1 ≠ 0 ∨
          ∃ name ∈ (FileTree.relative p base).2, bytes ".." <:+: name
        then [] else pathText p := by
  have hreached := FileSystem.canonical_reached hp
  have hrelative := FileSystem.relative_reached hreached (FileSystem.canonical_reached hbase)
  have hnames : ∀ name ∈ (FileTree.relative p base).2, IsName name := fun name hname =>
    FileSystem.isName_of_reached hreached name (FileTree.mem_of_mem_relative hname)
  rw [resolvePath, hbase, hp]
  simp only [hrelative, relativeText_ne_nil hnames, ne_eq, not_false_eq_true, true_and,
    ← Bool.not_eq_true, contains_relativeText_iff, ite_not]

/-- A path is returned only where both paths exist. -/
theorem exists_of_resolvePath (h : resolvePath fs fsPath requestPath ≠ []) :
    ∃ base p, fs.canonical fsPath = some base ∧
      fs.canonical (joinPath fsPath requestPath) = some p := by
  rw [resolvePath] at h
  cases hp : fs.canonical (joinPath fsPath requestPath) with
  | none =>
      rw [hp] at h
      exact absurd rfl h
  | some p =>
      cases hbase : fs.canonical fsPath with
      | none =>
          rw [hp, hbase] at h
          exact absurd rfl h
      | some base => exact ⟨base, p, rfl, rfl⟩

/-- **A resolved path is canonical and inside.** -/
theorem resolvePath_inside (h : resolvePath fs fsPath requestPath ≠ []) :
    ∃ base p, fs.canonical fsPath = some base ∧ base <+: p ∧
      resolvePath fs fsPath requestPath = pathText p ∧
      fs.canonical (resolvePath fs fsPath requestPath) = some p := by
  obtain ⟨base, p, hbase, hp⟩ := exists_of_resolvePath h
  have heq := resolvePath_eq hbase hp
  split at heq
  · exact absurd heq h
  · rename_i hup
    have hzero : (FileTree.relative p base).1 = 0 := by
      by_contra hne
      exact hup (Or.inl hne)
    refine ⟨base, p, hbase, FileTree.fst_relative_eq_zero hzero, heq, ?_⟩
    rw [heq]
    exact FileSystem.canonical_pathText (FileSystem.canonical_reached hp)

/-- What the loop over the prefixes finds is a resolved path of a regular file. -/
theorem staticFile_resolved {server : HttpServer} {path resolved : Bytes} {it : StaticPrefix}
    (h : server.staticFile fs path = some (it, resolved)) :
    it ∈ server.staticPrefixes ∧
      resolved = resolvePath fs it.fsPath (relativePath it.urlPrefix path) ∧
      fileExists fs resolved = true := by
  obtain ⟨sp, hmem, hfound⟩ := List.exists_of_findSome?_eq_some h
  split at hfound
  · simp only at hfound
    split at hfound
    · rename_i hexists
      obtain ⟨rfl, rfl⟩ := Prod.mk.inj (Option.some.inj hfound)
      exact ⟨List.mem_reverse.mp hmem, rfl, hexists⟩
    · cases hfound
  · cases hfound

/-- A file that exists is a regular one, and its content is read. -/
theorem readFile_of_fileExists {path : Bytes} (h : fileExists fs path = true) :
    ∃ p, fs.canonical path = some p ∧
      fs.tree.entry p = some (.file (.regular (readFile fs path))) := by
  obtain ⟨content, hcontent⟩ := Option.isSome_iff_exists.mp h
  have hread : readFile fs path = content := by rw [readFile, hcontent]; rfl
  rw [regularFile] at hcontent
  split at hcontent
  · rename_i c hbind
    obtain rfl := Option.some.inj hcontent
    obtain ⟨p, hp, hentry⟩ := Option.bind_eq_some_iff.mp hbind
    exact ⟨p, hp, hread.symm ▸ hentry⟩
  · cases hcontent

/-- **A file that the server reads is inside the directory of its prefix.** -/
theorem staticFile_inside {server : HttpServer} {path resolved : Bytes} {it : StaticPrefix}
    (h : server.staticFile fs path = some (it, resolved)) :
    ∃ base p, fs.canonical it.fsPath = some base ∧ base <+: p ∧ resolved = pathText p ∧
      fs.tree.entry p = some (.file (.regular (readFile fs resolved))) := by
  obtain ⟨-, hresolved, hexists⟩ := staticFile_resolved h
  obtain ⟨q, hq, hentry⟩ := readFile_of_fileExists hexists
  have hne : resolvePath fs it.fsPath (relativePath it.urlPrefix path) ≠ [] := by
    intro hnil
    rw [hresolved, hnil] at hq
    cases hq
  obtain ⟨base, p, hbase, hprefix, htext, hcanonical⟩ := resolvePath_inside hne
  rw [← hresolved] at htext hcanonical
  rw [hcanonical] at hq
  obtain rfl := Option.some.inj hq
  exact ⟨base, p, hbase, hprefix, htext, hentry⟩

/-- A request path below a directory leads to a regular file inside, whose path from the directory
is `rel`. -/
structure LeadsInside (fs : FileSystem) (fsPath requestPath : Bytes) (base rel : List Bytes) :
    Prop where
  directory : fs.canonical fsPath = some base
  path : fs.canonical (joinPath fsPath requestPath) = some (base ++ rel)
  regular : ∃ content, fs.tree.entry (base ++ rel) = some (.file (.regular content))

/-- A file inside is resolved iff no name on the way to it has two dots. -/
theorem resolvePath_file_iff {rel : List Bytes} (h : LeadsInside fs fsPath requestPath base rel) :
    resolvePath fs fsPath requestPath = pathText (base ++ rel) ↔
      ∀ name ∈ rel, ¬ bytes ".." <:+: name := by
  have heq := resolvePath_eq h.directory h.path
  rw [FileTree.relative_append] at heq
  rw [heq]
  split
  · rename_i hup
    obtain hne | ⟨name, hname, hdots⟩ := hup
    · exact absurd rfl hne
    · exact ⟨fun hnil => absurd hnil.symm (List.cons_ne_nil _ _),
        fun hall => absurd hdots (hall name hname)⟩
  · rename_i hup
    exact ⟨fun _ name hname hdots => hup (Or.inr ⟨name, hname, hdots⟩), fun _ => rfl⟩

/-- What the server promises of a prefix: a resolved path is canonical and inside the directory, a
file that is read is inside, and a request path to a file inside is resolved. -/
structure Confined (fs : FileSystem) (it : StaticPrefix) (requestPath : Bytes) : Prop where
  inside : resolvePath fs it.fsPath requestPath ≠ [] →
    ∃ base p, fs.canonical it.fsPath = some base ∧ base <+: p ∧
      resolvePath fs it.fsPath requestPath = pathText p ∧
      fs.canonical (resolvePath fs it.fsPath requestPath) = some p
  read : ∀ (server : HttpServer) (path resolved : Bytes),
    server.staticFile fs path = some (it, resolved) →
    ∃ base p, fs.canonical it.fsPath = some base ∧ base <+: p ∧ resolved = pathText p ∧
      fs.tree.entry p = some (.file (.regular (readFile fs resolved)))
  resolved : ∀ base rel, LeadsInside fs it.fsPath requestPath base rel →
    resolvePath fs it.fsPath requestPath = pathText (base ++ rel)

/-- **Paths are inside, and a file inside is resolved, iff no name on the way to it has two
dots.** -/
theorem confined_iff_names (fs : FileSystem) (it : StaticPrefix) (requestPath : Bytes)
    (_hne : it.fsPath ≠ []) :
    Confined fs it requestPath ↔
      ∀ base rel, LeadsInside fs it.fsPath requestPath base rel →
        ∀ name ∈ rel, ¬ bytes ".." <:+: name := by
  constructor
  · intro hconfined base rel h
    exact (resolvePath_file_iff h).mp (hconfined.resolved base rel h)
  · intro hnames
    refine ⟨resolvePath_inside, ?_, ?_⟩
    · intro server path resolved h
      exact staticFile_inside h
    · intro base rel h
      exact (resolvePath_file_iff h).mpr (hnames base rel h)

/-- A directory with two files. -/
def dottedTree : FileTree Bytes FileContent where
  entry p :=
    if p = [bytes "www"] then some .directory
    else if p = [bytes "www", bytes "index.html"] then some (.file (.regular (bytes "hello")))
    else if p = [bytes "www", bytes "a..b"] then some (.file (.regular (bytes "hidden")))
    else none

/-- The example of a tree has names. -/
theorem isName_dottedTree (p : List Bytes) (name : Bytes) (h : dottedTree.entry p ≠ none)
    (hname : name ∈ p) : IsName name := by
  have hnames : ∀ name ∈ [bytes "www", bytes "index.html", bytes "a..b"], IsName name := by
    unfold IsName
    decide
  refine hnames name ?_
  rw [dottedTree] at h
  simp only at h
  split at h
  · rename_i heq
    subst heq
    simp only [List.mem_cons, List.not_mem_nil, or_false] at hname ⊢
    exact Or.inl hname
  · split at h
    · rename_i heq
      subst heq
      simp only [List.mem_cons, List.not_mem_nil, or_false] at hname ⊢
      tauto
    · split at h
      · rename_i heq
        subst heq
        simp only [List.mem_cons, List.not_mem_nil, or_false] at hname ⊢
        tauto
      · exact absurd rfl h

/-- The file system of this directory, seen from its root. -/
def dottedFiles : FileSystem where
  tree := dottedTree
  currentPath := []
  maxLinks := 40
  isName := isName_dottedTree
  isDirectory := FileTree.isDirectory_nil

/-- The prefix `/` for the directory. -/
def wwwPrefix : StaticPrefix := { urlPrefix := bytes "/", fsPath := bytes "/www" }

/-- `/www/index.html` is resolved. -/
theorem index_confined : Confined dottedFiles wwwPrefix (bytes "index.html") := by
  refine (confined_iff_names dottedFiles wwwPrefix (bytes "index.html") (by decide)).mpr ?_
  intro base rel h
  have hbase : dottedFiles.canonical wwwPrefix.fsPath = some [bytes "www"] := by decide
  have hpath : dottedFiles.canonical (joinPath wwwPrefix.fsPath (bytes "index.html")) =
      some [bytes "www", bytes "index.html"] := by decide
  obtain rfl := Option.some.inj (hbase.symm.trans h.directory)
  obtain rfl := List.append_cancel_left
    (Option.some.inj (hpath.symm.trans h.path) : [bytes "www"] ++ [bytes "index.html"] = _)
  decide

/-- **`/www/a..b` is not resolved.** -/
theorem dotted_name_hidden : ¬ Confined dottedFiles wwwPrefix (bytes "a..b") := by
  intro h
  have hresolved := h.resolved [bytes "www"] [bytes "a..b"]
    ⟨by decide, by decide, ⟨bytes "hidden", by decide⟩⟩
  exact absurd hresolved (by decide)

end HttpServer

end SimplyNode
