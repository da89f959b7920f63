import CDevHws.Hw15.GtkTree
import Mathlib.Data.List.Nodup

/-!
# Proofs: under which row a file is shown

The rows in the store, each with the file name of the row it is a child of, are those of a walk that
only knows the directory visited last. A file that comes after a subdirectory is shown under a
directory below, so the directory structure is preserved if and only if in every directory the
files come before the subdirectories.
-/

namespace CDevHws.Hw15

/-! ## Directories -/

/-- The names of the entries. -/
def Entries.names : Entries → List Name
  | .nil => []
  | .regular name rest => name :: rest.names
  | .directory name _ rest => name :: rest.names
  | .other name rest => name :: rest.names

/-- The names of the entries of a directory are distinct, also in the directories below. -/
def Entries.Distinct : Entries → Prop
  | .nil => True
  | .regular name rest => name ∉ rest.names ∧ rest.Distinct
  | .directory name children rest => name ∉ rest.names ∧ children.Distinct ∧ rest.Distinct
  | .other name rest => name ∉ rest.names ∧ rest.Distinct

/-- The regular files in the directory `file` and below. -/
def Entries.regularFiles (file : GFile) : Entries → List GFile
  | .nil => []
  | .regular name rest => resolve file name :: rest.regularFiles file
  | .directory name children rest =>
    children.regularFiles (resolve file name) ++ rest.regularFiles file
  | .other _ rest => rest.regularFiles file

/-- No entry is a regular file. -/
def Entries.NoFiles : Entries → Prop
  | .nil => True
  | .regular _ _ => False
  | .directory _ _ rest => rest.NoFiles
  | .other _ rest => rest.NoFiles

/-- In every directory, no regular file comes after a subdirectory. -/
def Entries.FilesFirst : Entries → Prop
  | .nil => True
  | .regular _ rest => rest.FilesFirst
  | .directory _ children rest => children.FilesFirst ∧ rest.NoFiles ∧ rest.FilesFirst
  | .other _ rest => rest.FilesFirst

/-! ## The walk -/

/-- The directory visited last, after these entries of `file`; before them it is `last`. -/
def lastVisited (last file : GFile) : Entries → GFile
  | .nil => last
  | .regular _ rest => lastVisited last file rest
  | .directory name children rest =>
    lastVisited (lastVisited (resolve file name) (resolve file name) children) file rest
  | .other _ rest => lastVisited last file rest

/-- The file names of the rows for these entries of `file`, each with the one of the row above;
`last` is the directory visited last. -/
def walk (last file : GFile) : Entries → List (Filename × Option Filename)
  | .nil => []
  | .regular name rest =>
    (.basename (resolve file name), some (.parseName last)) :: walk last file rest
  | .directory name children rest =>
    (.parseName (resolve file name), none) ::
      (walk (resolve file name) (resolve file name) children ++
        walk (lastVisited (resolve file name) (resolve file name) children) file rest)
  | .other _ rest => walk last file rest

/-- The file name of a row and of the row above. -/
def view (rows : List Row) (row : Row) : Filename × Option Filename :=
  (row.filename, row.parent.bind fun i => rows[i]?.map Row.filename)

/-- The iterators and parents of the store are indices of rows. -/
structure Store.Valid (store : Store) : Prop where
  parent_lt : ∀ row ∈ store.rows, ∀ i ∈ row.parent, i < store.rows.length

/-- `iter1` is set to the row of this directory. -/
def Store.AtDirectory (store : Store) (file : GFile) : Prop :=
  ∃ i, store.iter1 = some i ∧ store.rows[i]?.map Row.filename = some (.parseName file)

/-- A row is seen in the same way when more rows are appended. -/
theorem view_append {rows : List Row} (more : List Row) {row : Row}
    (hparent : ∀ i ∈ row.parent, i < rows.length) : view (rows ++ more) row = view rows row := by
  rcases hp : row.parent with _ | i
  · simp [view, hp]
  · have hi : i < rows.length := hparent i (by simp [hp])
    simp [view, hp, List.getElem?_append_left hi]

theorem valid_append {store store' : Store} {row : Row} (hvalid : store.Valid)
    (hrows : store'.rows = store.rows ++ [row])
    (hparent : ∀ i ∈ row.parent, i < store.rows.length) : store'.Valid := by
  refine ⟨fun r hr i hi => ?_⟩
  rw [hrows] at hr ⊢
  rw [List.length_append]
  rcases List.mem_append.mp hr with h | h
  · exact Nat.lt_add_right _ (hvalid.parent_lt r h i hi)
  · rw [List.mem_singleton.mp h] at hi
    exact Nat.lt_add_right _ (hparent i hi)

theorem appendDirectory_valid (file : GFile) {store : Store} (hvalid : store.Valid) :
    (appendDirectory file store).Valid :=
  valid_append hvalid rfl (by simp)

theorem appendDirectory_atDirectory (file : GFile) (store : Store) :
    (appendDirectory file store).AtDirectory file :=
  ⟨store.rows.length, rfl, by simp [appendDirectory]⟩

/-- When the rows are extended in two steps, both views are taken of all the rows. -/
theorem view_append_append (new₂ : List Row) {rows new₁ : List Row} {store : Store}
    (hvalid : store.Valid) (hrows : store.rows = rows ++ new₁) :
    (new₁ ++ new₂).map (view (rows ++ (new₁ ++ new₂))) =
      new₁.map (view (rows ++ new₁)) ++ new₂.map (view (store.rows ++ new₂)) := by
  rw [List.map_append, ← List.append_assoc, ← hrows]
  congr 1
  refine List.map_congr_left fun row hrow => view_append _ (hvalid.parent_lt row ?_)
  rw [hrows]
  exact List.mem_append_right _ hrow

/-- What is appended for the entries is what the walk tells. -/
theorem enumerate_spec (file : GFile) (entries : Entries) {last : GFile} {store : Store}
    (hvalid : store.Valid) (hlast : store.AtDirectory last) :
    ∃ new, (enumerate file entries store).rows = store.rows ++ new ∧
      new.map (view (store.rows ++ new)) = walk last file entries ∧
      (enumerate file entries store).Valid ∧
      (enumerate file entries store).AtDirectory (lastVisited last file entries) := by
  induction entries generalizing last file store with
  | nil => exact ⟨[], by simp [enumerate], by simp [walk], hvalid, hlast⟩
  | other name rest ih => exact ih file hvalid hlast
  | regular name rest ih =>
    obtain ⟨i, hiter, hrow⟩ := hlast
    have hi : i < store.rows.length := by
      obtain ⟨row, hrow, -⟩ := Option.map_eq_some_iff.mp hrow
      exact (List.getElem?_eq_some_iff.mp hrow).1
    set store₁ := appendRegular (resolve file name) store with hstore₁
    have hrows₁ : store₁.rows = store.rows ++ [⟨some i, .basename (resolve file name)⟩] := by
      simp [hstore₁, appendRegular, hiter]
    have hvalid₁ : store₁.Valid := valid_append hvalid hrows₁ (by simpa using hi)
    have hlast₁ : store₁.AtDirectory last := by
      refine ⟨i, by simp [hstore₁, appendRegular, hiter], ?_⟩
      rw [hrows₁, List.getElem?_append_left hi]
      exact hrow
    obtain ⟨new, hnew, hview, hvalid', hlast'⟩ := ih file hvalid₁ hlast₁
    refine ⟨[⟨some i, .basename (resolve file name)⟩] ++ new, ?_, ?_, hvalid', hlast'⟩
    · rw [enumerate, hnew, hrows₁, List.append_assoc]
    · rw [view_append_append _ hvalid₁ hrows₁, hview]
      simp [walk, view, List.getElem?_append_left hi, hrow]
  | directory name children rest ihChildren ihRest =>
    set store₁ := appendDirectory (resolve file name) store with hstore₁
    have hvalid₁ : store₁.Valid := appendDirectory_valid _ hvalid
    have hlast₁ : store₁.AtDirectory (resolve file name) := appendDirectory_atDirectory _ _
    obtain ⟨new₂, hnew₂, hview₂, hvalid₂, hlast₂⟩ :=
      ihChildren (resolve file name) hvalid₁ hlast₁
    obtain ⟨new₃, hnew₃, hview₃, hvalid₃, hlast₃⟩ := ihRest file hvalid₂ hlast₂
    have hrows₂ : (enumerate (resolve file name) children store₁).rows =
        store.rows ++ ([⟨none, .parseName (resolve file name)⟩] ++ new₂) := by
      rw [hnew₂, hstore₁, appendDirectory, List.append_assoc]
    refine ⟨[⟨none, .parseName (resolve file name)⟩] ++ new₂ ++ new₃, ?_, ?_, hvalid₃, hlast₃⟩
    · rw [enumerate, hnew₃, hrows₂, List.append_assoc]
    · rw [view_append_append _ hvalid₂ hrows₂, view_append_append _ hvalid₁ rfl, hview₂, hview₃]
      simp [walk, view]

/-- The rows after the call for a directory, in a store without rows. -/
theorem populateTreeModel_view (file : GFile) (entries : Entries) {store : Store}
    (hempty : store.rows = []) :
    (populateTreeModel store file entries).rows.map
        (view (populateTreeModel store file entries).rows) =
      (.parseName file, none) :: walk file file entries := by
  have hvalid : (appendDirectory file store).Valid :=
    appendDirectory_valid file ⟨by simp [hempty]⟩
  obtain ⟨new, hnew, hview, -⟩ :=
    enumerate_spec file entries hvalid (appendDirectory_atDirectory file store)
  have hrows : (appendDirectory file store).rows = [] ++ [⟨none, .parseName file⟩] := by
    rw [appendDirectory, hempty]
  have hsplit := view_append_append new hvalid hrows
  rw [hview] at hsplit
  rw [populateTreeModel, hnew, hrows]
  simpa [view] using hsplit

/-! ## What the walk tells -/

/-- The directory or file that a row is about. -/
def Filename.file : Filename → GFile
  | .parseName file => file
  | .basename file => file

/-- A row for an entry of `file` or for something below it is about a path through this entry. -/
theorem walk_path {entries : Entries} {last file : GFile} {x : Filename × Option Filename}
    (hx : x ∈ walk last file entries) :
    ∃ name ∈ entries.names, ∃ below, x.1.file = file ++ name :: below := by
  induction entries generalizing last file with
  | nil => simp [walk] at hx
  | other name rest ih =>
    obtain ⟨n, hn, below, heq⟩ := ih hx
    exact ⟨n, List.mem_cons_of_mem _ hn, below, heq⟩
  | regular name rest ih =>
    rcases List.mem_cons.mp hx with rfl | hx
    · exact ⟨name, List.mem_cons_self, [], rfl⟩
    · obtain ⟨n, hn, below, heq⟩ := ih hx
      exact ⟨n, List.mem_cons_of_mem _ hn, below, heq⟩
  | directory name children rest ihChildren ihRest =>
    rcases List.mem_cons.mp hx with rfl | hx
    · exact ⟨name, List.mem_cons_self, [], rfl⟩
    · rcases List.mem_append.mp hx with hx | hx
      · obtain ⟨n, -, below, heq⟩ := ihChildren hx
        exact ⟨name, List.mem_cons_self, n :: below, by simp [heq, resolve]⟩
      · obtain ⟨n, hn, below, heq⟩ := ihRest hx
        exact ⟨n, List.mem_cons_of_mem _ hn, below, heq⟩

/-- No row of the remaining entries is about a path through a name that is not among theirs. -/
theorem walk_path_ne (below : GFile) {entries : Entries} {last file : GFile} {name : Name}
    {x : Filename × Option Filename} (hx : x ∈ walk last file entries)
    (hname : name ∉ entries.names) : x.1.file ≠ file ++ name :: below := by
  obtain ⟨n, hn, below', heq⟩ := walk_path hx
  intro h
  rw [heq] at h
  have hnames : n = name := (List.cons.inj (List.append_cancel_left h)).1
  exact hname (hnames ▸ hn)

/-- If the names are distinct, every file has its own row. -/
theorem walk_nodup {entries : Entries} (last file : GFile) (hdistinct : entries.Distinct) :
    ((walk last file entries).map fun x => x.1.file).Nodup := by
  induction entries generalizing last file with
  | nil => simp [walk]
  | other name rest ih => exact ih _ _ hdistinct.2
  | regular name rest ih =>
    rw [walk, List.map_cons, List.nodup_cons]
    refine ⟨fun h => ?_, ih _ _ hdistinct.2⟩
    obtain ⟨x, hx, heq⟩ := List.mem_map.mp h
    exact walk_path_ne [] hx hdistinct.1 heq
  | directory name children rest ihChildren ihRest =>
    obtain ⟨hname, hchildren, hrest⟩ := hdistinct
    rw [walk, List.map_cons, List.nodup_cons, List.map_append, List.nodup_append]
    refine ⟨fun h => ?_, ihChildren _ _ hchildren, ihRest _ _ hrest, fun a ha b hb hab => ?_⟩
    · rcases List.mem_append.mp h with h | h
      · obtain ⟨x, hx, heq⟩ := List.mem_map.mp h
        obtain ⟨n, -, below, hpath⟩ := walk_path hx
        have hlength := congrArg List.length (hpath.symm.trans heq)
        simp [Filename.file] at hlength
      · obtain ⟨x, hx, heq⟩ := List.mem_map.mp h
        exact walk_path_ne [] hx hname heq
    · obtain ⟨x, hx, rfl⟩ := List.mem_map.mp ha
      obtain ⟨y, hy, rfl⟩ := List.mem_map.mp hb
      obtain ⟨n, -, below, hpath⟩ := walk_path hx
      refine walk_path_ne (n :: below) hy hname ?_
      rw [← hab, hpath]
      simp [resolve]

/-- The regular files are those with a row for a base name. -/
theorem mem_regularFiles (last : GFile) {entries : Entries} {file path : GFile} :
    path ∈ entries.regularFiles file ↔
      ∃ above, (.basename path, above) ∈ walk last file entries := by
  induction entries generalizing last file with
  | nil => simp [Entries.regularFiles, walk]
  | other name rest ih => exact ih last
  | regular name rest ih =>
    simp only [Entries.regularFiles, walk, List.mem_cons, Prod.mk.injEq, Filename.basename.injEq]
    rw [ih last]
    constructor
    · rintro (h | ⟨above, h⟩)
      · exact ⟨_, Or.inl ⟨h, rfl⟩⟩
      · exact ⟨above, Or.inr h⟩
    · rintro ⟨above, ⟨h, -⟩ | h⟩
      · exact Or.inl h
      · exact Or.inr ⟨above, h⟩
  | directory name children rest ihChildren ihRest =>
    simp only [Entries.regularFiles, walk, List.mem_cons, List.mem_append, Prod.mk.injEq,
      reduceCtorEq, false_and, false_or]
    rw [ihChildren (resolve file name),
      ihRest (lastVisited (resolve file name) (resolve file name) children), exists_or]

/-! ## The directory above -/

/-- A regular file is shown under the directory that contains it. -/
def Placed (x : Filename × Option Filename) : Prop :=
  ∀ path, x.1 = .basename path → x.2 = some (.parseName path.dropLast)

theorem placed_directory (path : GFile) (above : Option Filename) :
    Placed (.parseName path, above) := by
  intro path' h
  cases h

theorem placed_regular (last file : GFile) (name : Name) :
    Placed (.basename (resolve file name), some (.parseName last)) ↔ last = file := by
  constructor
  · intro h
    simpa [resolve] using h _ rfl
  · rintro rfl path h
    cases h
    simp [resolve]

/-- The directory visited last is `file` or lies below it. -/
theorem length_lastVisited (entries : Entries) {last file : GFile}
    (hlast : file.length ≤ last.length) :
    file.length ≤ (lastVisited last file entries).length := by
  induction entries generalizing last file with
  | nil => exact hlast
  | regular name rest ih => exact ih hlast
  | other name rest ih => exact ih hlast
  | directory name children rest ihChildren ihRest =>
    have hbelow := ihChildren (Nat.le_refl (resolve file name).length)
    refine ihRest (Nat.le_trans ?_ hbelow)
    simp [resolve]

/-- After a subdirectory, the directory visited last is not `file`. -/
theorem lastVisited_resolve_ne (children : Entries) (file : GFile) (name : Name) :
    lastVisited (resolve file name) (resolve file name) children ≠ file := by
  have h := length_lastVisited children (Nat.le_refl (resolve file name).length)
  intro heq
  rw [heq, resolve, List.length_append] at h
  exact Nat.not_succ_le_self _ h

/-- All files are placed if and only if, in each directory, they come before the subdirectories. -/
theorem walk_placed_iff (entries : Entries) (last file : GFile) :
    (∀ x ∈ walk last file entries, Placed x) ↔
      (last = file ∨ entries.NoFiles) ∧ entries.FilesFirst := by
  induction entries generalizing last file with
  | nil => simp [walk, Entries.NoFiles, Entries.FilesFirst]
  | other name rest ih => exact ih last file
  | regular name rest ih =>
    rw [walk, List.forall_mem_cons, placed_regular, ih]
    simp only [Entries.NoFiles, Entries.FilesFirst, or_false]
    tauto
  | directory name children rest ihChildren ihRest =>
    have hne := lastVisited_resolve_ne children file name
    rw [walk, List.forall_mem_cons, List.forall_mem_append, ihChildren, ihRest]
    simp only [placed_directory, Entries.NoFiles, Entries.FilesFirst, hne]
    tauto

/-! ## The rows of the store -/

/-- The file has exactly one row, and this is a child of the row of the directory that directly
contains the file. -/
def HasRow (rows : List Row) (file : GFile) : Prop :=
  ∃ (i : ℕ) (row : Row), rows[i]? = some row ∧ row.filename = .basename file ∧
    (∀ (j : ℕ) (row' : Row), rows[j]? = some row' → row'.filename = .basename file → j = i) ∧
    ∃ (k : ℕ) (directory : Row), row.parent = some k ∧ rows[k]? = some directory ∧
      directory.filename = .parseName file.dropLast

theorem hasRow_iff {rows : List Row} (file : GFile)
    (hnodup : (rows.map fun row => row.filename.file).Nodup) :
    HasRow rows file ↔
      (.basename file, some (.parseName file.dropLast)) ∈ rows.map (view rows) := by
  constructor
  · rintro ⟨i, row, hi, hfile, -, k, directory, hk, hdirectory, hname⟩
    refine List.mem_map.mpr ⟨row, List.mem_of_getElem? hi, ?_⟩
    simp [view, hfile, hk, hdirectory, hname]
  · intro hmem
    obtain ⟨row, hrow, hview⟩ := List.mem_map.mp hmem
    obtain ⟨hfile, hparent⟩ := Prod.mk.inj hview
    obtain ⟨i, hi⟩ := List.mem_iff_getElem?.mp hrow
    obtain ⟨k, hk, hname⟩ := Option.bind_eq_some_iff.mp hparent
    obtain ⟨directory, hdirectory, hname⟩ := Option.map_eq_some_iff.mp hname
    refine ⟨i, row, hi, hfile, fun j row' hj hfile' => ?_, k, directory, hk, hdirectory, hname⟩
    have hlt : j < (rows.map fun row => row.filename.file).length := by
      rw [List.length_map]
      exact (List.getElem?_eq_some_iff.mp hj).1
    refine (List.getElem?_inj hlt hnodup).mp ?_
    simp [hi, hj, hfile, hfile']

/-- The file names of the rows after the call are those of the walk. -/
theorem populateTreeModel_nodup (file : GFile) {entries : Entries} {store : Store}
    (hempty : store.rows = []) (hdistinct : entries.Distinct) :
    ((populateTreeModel store file entries).rows.map fun row => row.filename.file).Nodup := by
  have hview := congrArg (List.map fun x => x.1.file) (populateTreeModel_view file entries hempty)
  rw [List.map_map, List.map_cons] at hview
  have hfile : (fun x : Filename × Option Filename => x.1.file) ∘
      view (populateTreeModel store file entries).rows = fun row => row.filename.file := rfl
  rw [hfile] at hview
  rw [hview, List.nodup_cons]
  refine ⟨fun h => ?_, walk_nodup file file hdistinct⟩
  obtain ⟨x, hx, heq⟩ := List.mem_map.mp h
  obtain ⟨n, -, below, hpath⟩ := walk_path hx
  have hlength := congrArg List.length (hpath.symm.trans heq)
  simp [Filename.file] at hlength

/-- The directory structure is preserved if and only if in every directory the regular files come
before the subdirectories. -/
theorem directory_structure_iff (file : GFile) {entries : Entries} {store : Store}
    (hempty : store.rows = []) (hdistinct : entries.Distinct) :
    (∀ path ∈ entries.regularFiles file,
        HasRow (populateTreeModel store file entries).rows path) ↔ entries.FilesFirst := by
  have hnodup := populateTreeModel_nodup file hempty hdistinct
  have hplaced : entries.FilesFirst ↔ ∀ x ∈ walk file file entries, Placed x := by
    rw [walk_placed_iff, eq_self, true_or, true_and]
  rw [hplaced]
  constructor
  · rintro h ⟨_, above⟩ hx path rfl
    have hrow := h path ((mem_regularFiles file).mpr ⟨above, hx⟩)
    rw [hasRow_iff path hnodup, populateTreeModel_view file entries hempty] at hrow
    rcases List.mem_cons.mp hrow with hrow | hrow
    · cases hrow
    · have heq := List.inj_on_of_nodup_map (walk_nodup file file hdistinct) hx hrow rfl
      exact (Prod.mk.inj heq).2
  · intro h path hpath
    obtain ⟨above, hx⟩ := (mem_regularFiles file).mp hpath
    rw [hasRow_iff path hnodup, populateTreeModel_view file entries hempty]
    have habove : above = some (.parseName path.dropLast) := h _ hx path rfl
    exact List.mem_cons_of_mem _ (habove ▸ hx)

/-- A file and then a subdirectory with a file. -/
theorem directory_structure_file_directory :
    (Store.empty.rows = [] ∧
      (Entries.regular [97] (.directory [98] (.regular [97] .nil) .nil)).Distinct) ∧
    ((∀ path ∈ (Entries.regular [97] (.directory [98] (.regular [97] .nil) .nil)).regularFiles [],
        HasRow (populateTreeModel .empty []
          (.regular [97] (.directory [98] (.regular [97] .nil) .nil))).rows path) ↔
      (Entries.regular [97] (.directory [98] (.regular [97] .nil) .nil)).FilesFirst) := by
  have hdistinct :
      (Entries.regular [97] (.directory [98] (.regular [97] .nil) .nil)).Distinct := by
    simp [Entries.Distinct, Entries.names]
  exact ⟨⟨rfl, hdistinct⟩, directory_structure_iff [] rfl hdistinct⟩

/-- With an empty subdirectory `d` and then the file `f`, the row of `f` is a child of the one
of `d`. -/
theorem directory_structure_lost :
    ¬ ∀ path ∈ (Entries.directory [100] .nil (.regular [102] .nil)).regularFiles [],
      HasRow (populateTreeModel .empty []
        (.directory [100] .nil (.regular [102] .nil))).rows path := by
  intro h
  obtain ⟨i, row, hi, hfile, -, k, directory, hk, hdirectory, hname⟩ :=
    h [[102]] (by simp [Entries.regularFiles, resolve])
  have hrows : (populateTreeModel .empty [] (.directory [100] .nil (.regular [102] .nil))).rows =
      [⟨none, .parseName []⟩, ⟨none, .parseName [[100]]⟩, ⟨some 1, .basename [[102]]⟩] := rfl
  rw [hrows] at hi hdirectory
  have hrow := List.mem_of_getElem? hi
  simp only [List.mem_cons, List.not_mem_nil, or_false] at hrow
  rcases hrow with rfl | rfl | rfl
  · cases hfile
  · cases hfile
  · cases hk
    cases hdirectory
    cases hname

end CDevHws.Hw15
