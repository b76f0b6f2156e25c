import NfsProvisioner.Tree.Walk

/-!
# Operations on files

Making and removing entries by path. Each operation either answers the changed tree or says why it
is refused, and then nothing has changed. None of them follows a symbolic link in the last place
of its path, except that writing a file follows it to the file that it leads to.
-/
namespace NfsProvisioner.Tree

/-- Makes a new entry. -/
def create (t : Tree) (cwd : Location) (p : Path) (e : Entry) : Except Fault Tree := do
  match ← t.slot cwd p with
  | .ancestor _ => throw .alreadyExists
  | .entry l directory name =>
    if free : t.get? (l ++ [name]) = none then return t.add l name e directory free
    else throw .alreadyExists

/-- Makes a directory. Something else in its place, of whatever kind, is an error. -/
def makeDirectory (t : Tree) (cwd : Location) (p : Path) : Except Fault Tree :=
  t.create cwd p .directory

/-- Makes a symbolic link. -/
def makeLink (t : Tree) (cwd : Location) (p : Path) (target : String) : Except Fault Tree :=
  t.create cwd p (.link target)

/-- Removes a directory, which must be empty. -/
def removeDirectory (t : Tree) (cwd : Location) (p : Path) : Except Fault Tree := do
  match ← t.slot cwd p with
  | .ancestor l => throw (if l = [] then .busy else .notEmpty)
  | .entry l _ name =>
    match t.get? (l ++ [name]) with
    | none => throw .notFound
    | some .directory =>
      if t.isBare (l ++ [name]) then return t.prune (l ++ [name]) (Location.child_ne_root l name)
      else throw .notEmpty
    | some _ => throw .notDirectory

/-- Removes everything below the location that a path leads to, and then the directory itself, by
its path again. A path may lead through what is below its own end, along a symbolic link to a
directory above. Then it leads nowhere any more, and the empty directory stays. -/
def sweep (t : Tree) (cwd : Location) (p : Path) (l : Location) : Except Fault Tree :=
  match (t.clear l).removeDirectory cwd p with
  | .error .notFound => .ok (t.clear l)
  | outcome => outcome

/-- Removes a directory with everything below it, or a symbolic link. Symbolic links below the
directory are removed like files: what they lead to stays. -/
def removeAll (t : Tree) (cwd : Location) (p : Path) : Except Fault Tree := do
  match ← t.slot cwd p with
  | .ancestor l => t.sweep cwd p l
  | .entry l _ name =>
    match t.get? (l ++ [name]) with
    | none => throw .notFound
    | some (.file _) => throw .notDirectory
    | some (.link _) => return t.prune (l ++ [name]) (Location.child_ne_root l name)
    | some .directory => t.sweep cwd p (l ++ [name])

/-- Removes a file or a symbolic link. -/
def removeFile (t : Tree) (cwd : Location) (p : Path) : Except Fault Tree := do
  match ← t.slot cwd p with
  | .ancestor _ => throw .isDirectory
  | .entry l _ name =>
    match t.get? (l ++ [name]) with
    | none => throw .notFound
    | some .directory => throw .isDirectory
    | some _ => return t.prune (l ++ [name]) (Location.child_ne_root l name)

/-- Makes an entry at a location, in a directory that is there. -/
def createAt (t : Tree) (l : Location) (e : Entry) : Except Fault Tree :=
  match l.getLast? with
  | none => .error .alreadyExists
  | some name =>
    if free : t.get? (l.dropLast ++ [name]) = none then
      if directory : t.get? l.dropLast = some .directory then
        .ok (t.add l.dropLast name e directory free)
      else .error .notFound
    else .error .alreadyExists

/-- Writes a file, which is made if it is missing. -/
def writeFile (t : Tree) (cwd : Location) (p : Path) (contents : String) : Except Fault Tree := do
  let l ← t.resolveNew cwd p
  match h : t.get? l with
  | some (.file _) => return t.setContents l contents h
  | some _ => throw .isDirectory
  | none => t.createAt l (.file contents)

/-- Why an entry cannot take the place of what stands at a location. A directory takes the place of
an empty directory only, and anything else that of anything but a directory. -/
def checkReplaceable (t : Tree) (e : Entry) (l : Location) : Except Fault Unit :=
  match t.get? l with
  | none => .ok ()
  | some .directory =>
    if e ≠ .directory then .error .isDirectory
    else if t.isBare l then .ok ()
    else .error .notEmpty
  | some _ => if e = .directory then .error .notDirectory else .ok ()

/-- Moves an entry with everything below it to a name in a directory. Whatever stands there makes
way. -/
def replace (t : Tree) (source l : Location) (name : String)
    (directory : t.get? l = some .directory) (apart : ¬ source <+: l ++ [name]) : Tree :=
  (t.prune (l ++ [name]) (Location.child_ne_root l name)).move source l name
    (by rw [get?_prune, if_neg (Location.child_not_above l name), directory])
    (by rw [get?_prune, if_pos (List.prefix_refl _)])
    apart

/-- Moves an entry with everything below it. An empty directory in the target's place makes way for
a directory, and a file or a symbolic link makes way for anything but a directory. -/
def rename (t : Tree) (cwd : Location) (source target : Path) : Except Fault Tree := do
  match ← t.slot cwd source, ← t.slot cwd target with
  | .entry holder _ name, .entry l directory newName =>
    match t.get? (holder ++ [name]) with
    | none => throw .notFound
    | some e =>
      if holder ++ [name] = l ++ [newName] then return t
      else if apart : holder ++ [name] <+: l ++ [newName] then throw .invalid
      else
        t.checkReplaceable e (l ++ [newName])
        return t.replace (holder ++ [name]) l newName directory apart
  | _, _ => throw .busy

end Tree
end NfsProvisioner
