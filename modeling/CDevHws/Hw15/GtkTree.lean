import Mathlib.Algebra.Group.Nat.Defs

/-!
# The rows of a directory tree (`gtk_tree.c`)

`populate_tree_model` goes through a directory and calls itself for each entry. The iterators of the
tree store to which it appends rows are static, so all its activations share them.
-/

namespace CDevHws.Hw15

/-- The name of an entry of a directory. -/
abbrev Name := List UInt8

/-- A `GFile`: the names on the way from the root to the file. -/
abbrev GFile := List Name

/-- What the enumerator of a directory delivers, in this order. -/
inductive Entries where
  | nil : Entries
  /-- A regular file. -/
  | regular (name : Name) (rest : Entries) : Entries
  /-- A directory, with what its own enumerator delivers. -/
  | directory (name : Name) (children rest : Entries) : Entries
  /-- A file of another type. -/
  | other (name : Name) (rest : Entries) : Entries

/-- The text in `FILENAME_COLUMN`. -/
inductive Filename where
  /-- The text of `g_file_get_parse_name`. -/
  | parseName (file : GFile)
  /-- The text of `g_file_get_basename`. -/
  | basename (file : GFile)
deriving DecidableEq

/-- A row of the tree store. -/
structure Row where
  /-- The index of the row that it is a child of, if it is not at the top. -/
  parent : Option ℕ
  filename : Filename
deriving DecidableEq

/-- The tree store, with its rows in the order in which they have been appended, and the static
iterators. An iterator is the index of a row; it is not set at the beginning. -/
structure Store where
  rows : List Row
  iter1 : Option ℕ
  iter2 : Option ℕ
deriving DecidableEq

/-- An empty store, before the first call. -/
def Store.empty : Store := ⟨[], none, none⟩

/-- A directory gets a row at the top, and `iter1` is set to it. -/
def appendDirectory (file : GFile) (store : Store) : Store where
  rows := store.rows ++ [⟨none, .parseName file⟩]
  iter1 := some store.rows.length
  iter2 := store.iter2

/-- A regular file gets a row under the one of `iter1`, and `iter2` is set to it. If `iter1` is not
set, `gtk_tree_store_append` does nothing. -/
def appendRegular (file : GFile) (store : Store) : Store :=
  match store.iter1 with
  | none => store
  | some parent =>
    { rows := store.rows ++ [⟨some parent, .basename file⟩]
      iter1 := some parent
      iter2 := some store.rows.length }

/-- `g_file_resolve_relative_path`. -/
def resolve (file : GFile) (name : Name) : GFile := file ++ [name]

/-- The loop over the entries of the directory `file`, with the calls of `populate_tree_model`. -/
def enumerate (file : GFile) : Entries → Store → Store
  | .nil, store => store
  | .regular name rest, store => enumerate file rest (appendRegular (resolve file name) store)
  | .directory name children rest, store =>
    enumerate file rest
      (enumerate (resolve file name) children (appendDirectory (resolve file name) store))
  | .other _ rest, store => enumerate file rest store

/-- `populate_tree_model` for a directory. -/
def populateTreeModel (store : Store) (file : GFile) (entries : Entries) : Store :=
  enumerate file entries (appendDirectory file store)

end CDevHws.Hw15
