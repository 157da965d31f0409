import Residency.Lookup

/-!
# Files

As much of a file system as a log needs: files, each with its name and its contents, and which file
a path leads to (`Residency.Directory.resolve`). Where paths lead is given, and nothing is assumed
of it. Several of them may lead to one file: one that starts at the root, one that starts at the
working directory, one that goes through a link. One that leads to no file cannot be opened, since
there is no directory for the file, or it is one, or it may not be written.

Creating a file empties it if it is there already; appending to a file that is not
there does nothing. Neither ever fails, because a log that cannot be written is no
reason to stop.
-/

namespace Residency

namespace Directory

/-- A path without the steps `./` that it starts with, which lead nowhere. More slashes may stand
behind such a step. -/
def withoutIdle (behindStep : Bool) : List Char → List Char
  | '.' :: '/' :: rest => withoutIdle true rest
  | '/' :: rest => if behindStep then withoutIdle true rest else '/' :: rest
  | path => path

/-- The file of a path where each path has one of its own, whatever directories it goes through.
One that ends in a slash or in a step of dots leads to a directory, and the empty one nowhere. -/
def ownFile (path : String) : Option String :=
  let steps := withoutIdle false path.toList
  -- The last step, read from its end.
  let last := steps.reverse.takeWhile (· != '/')
  if last = [] ∨ last = ['.'] ∨ last = ['.', '.'] then none else some (String.ofList steps)

/-- A step `./` in front of a path makes no difference, unless a slash comes next. -/
theorem ownFile_idle {cs : List Char} (h : cs.head? ≠ some '/') :
    ownFile (String.ofList ('.' :: '/' :: cs)) = ownFile (String.ofList cs) := by
  have hsteps : withoutIdle false ('.' :: '/' :: cs) = withoutIdle false cs := by
    rw [withoutIdle]
    unfold withoutIdle
    split
    · rfl
    · exact absurd rfl h
    · rfl
  simp only [ownFile, String.toList_ofList, hsteps]

/-- A path from the root leads to a file of its own, whatever directories it goes through. -/
theorem ownFile_of_root {dir name : List Char} (hslash : '/' ∉ name) (hname : name ≠ [])
    (hdot : name ≠ ['.']) (hdots : name ≠ ['.', '.']) :
    ownFile (String.ofList ('/' :: dir ++ '/' :: name)) =
      some (String.ofList ('/' :: dir ++ '/' :: name)) := by
  have hsteps : withoutIdle false ('/' :: dir ++ '/' :: name) = '/' :: dir ++ '/' :: name := rfl
  have hlast : ('/' :: dir ++ '/' :: name).reverse.takeWhile (· != '/') = name.reverse := by
    have hall : ∀ c ∈ name.reverse, (c != '/') = true :=
      fun c hc => bne_iff_ne.2 fun hcs => hslash (hcs ▸ List.mem_reverse.1 hc)
    rw [List.reverse_append, List.reverse_cons, List.append_assoc,
      List.takeWhile_append_of_pos hall]
    exact List.append_nil _
  rw [ownFile, String.toList_ofList, hsteps, hlast, if_neg]
  rintro (h | h | h) <;> rw [List.reverse_eq_iff] at h
  · exact hname h
  · exact hdot h
  · exact hdots h

end Directory

/-- Files, and the paths that lead to them. -/
structure Directory where
  /-- Names and contents, each name once. -/
  files : List (String × String) := []
  /-- The file that a path leads to, whether it is there yet or not, if one can be opened. -/
  resolve : String → Option String := Directory.ownFile

namespace Directory

/-- The contents of a file, if it is there. -/
def contents? (d : Directory) (name : String) : Option String := d.files.lookup name

/-- The directory without a file. -/
def remove (d : Directory) (name : String) : Directory :=
  { d with files := d.files.filter fun p => p.1 ≠ name }

/-- The directory with a file of some contents. -/
def write (d : Directory) (name : String) (text : String) : Directory :=
  { d with files := (name, text) :: (d.remove name).files }

theorem contents?_remove {d : Directory} {name other : String} :
    (d.remove name).contents? other = if other = name then none else d.contents? other :=
  lookup_filter_ne

theorem contents?_write {d : Directory} {name other text : String} :
    (d.write name text).contents? other = if other = name then some text else d.contents? other :=
  lookup_cons_filter_ne

@[simp]
theorem resolve_remove (d : Directory) (name : String) : (d.remove name).resolve = d.resolve := rfl

@[simp]
theorem resolve_write (d : Directory) (name text : String) :
    (d.write name text).resolve = d.resolve := rfl

/-- A file is there, and empty, if the path leads to one. -/
def create (d : Directory) (path : String) : Directory :=
  match d.resolve path with
  | some name => d.write name ""
  | none => d

/-- Text comes behind the contents of a file that is there already. -/
def append (d : Directory) (path : String) (text : String) : Directory :=
  match d.resolve path with
  | some name =>
    match d.contents? name with
    | some old => d.write name (old ++ text)
    | none => d
  | none => d

/-- Where paths lead does not change when a file is made. -/
@[simp]
theorem resolve_create (d : Directory) (path : String) : (d.create path).resolve = d.resolve := by
  unfold create
  split <;> rfl

/-- Where paths lead does not change when a file grows. -/
@[simp]
theorem resolve_append (d : Directory) (path text : String) :
    (d.append path text).resolve = d.resolve := by
  unfold append
  split
  · split <;> rfl
  · rfl

end Directory

end Residency
