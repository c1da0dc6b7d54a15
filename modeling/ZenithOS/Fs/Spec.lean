/-
What the file system is for.

There are no nodes, file objects, blocks or positions here: a name space
is a partial function from paths, a file is its bytes, and a descriptor
denotes a path.

# Paths

A path is a list of names. The entry of a directory has its names in the
order they were made; an entry below it exists just for these
(`Namespace.child`), so that no part of a name space is out of reach.

# Memory

Whether a call can get memory is not for the file system to say. A request
comes with the answer (`failed`).
-/
import ZenithOS.Fs.SysFile

namespace ZenithOS.Fs

open Lib Klib Mm Vmm Proc Scheduler

/-- A component of a path. -/
abbrev Name := List Byte

/-- The names on the way from the root. -/
abbrev Path := List Name

/-- What a path has: a file's bytes are `none` until they are written. -/
inductive Entry
  | directory (names : List Name)
  | file (content : Option (List Byte))
  deriving DecidableEq

/-- The names in a directory; a file has none. -/
def Entry.names : Entry → List Name
  | .directory names => names
  | .file _ => []

/-- What every path denotes: the root is a directory, and a path exists as
its directory lists it. -/
structure Namespace where
  entries : Path → Option Entry
  root : ∃ names, entries [] = some (.directory names)
  child : ∀ path name, (∃ e, entries (path ++ [name]) = some e)
    ↔ ∃ e, entries path = some e ∧ name ∈ e.names

variable {ns : Namespace} {path : Path} {name : Name} {names : List Name} {e : Entry}
  {old : Option (List Byte)}

theorem append_singleton_ne (path : Path) (name : Name) : path ++ [name] ≠ path := by
  intro heq
  have hlen := congrArg List.length heq
  rw [List.length_append, List.length_singleton] at hlen
  omega

/-- The name space of a root alone. -/
def Namespace.empty : Namespace where
  entries path := if path = [] then some (.directory []) else none
  root := ⟨[], if_pos rfl⟩
  child := by
    intro path name
    rw [if_neg (List.append_ne_nil_of_right_ne_nil path (List.cons_ne_nil name []))]
    constructor
    · rintro ⟨e, he⟩
      cases he
    · rintro ⟨e, he, hname⟩
      by_cases hpath : path = []
      · rw [if_pos hpath] at he
        cases he
        cases hname
      · rw [if_neg hpath] at he
        cases he

/-- The entries when the directory at `path` has got one more name. -/
def addedEntries (ns : Namespace) (path : Path) (names : List Name) (name : Name) (e : Entry) :
    Path → Option Entry :=
  Function.update (Function.update ns.entries path (some (.directory (names ++ [name]))))
    (path ++ [name]) (some e)

theorem addedEntries_new : addedEntries ns path names name e (path ++ [name]) = some e :=
  Function.update_self ..

theorem addedEntries_parent :
    addedEntries ns path names name e path = some (.directory (names ++ [name])) := by
  rw [addedEntries, Function.update_of_ne (append_singleton_ne path name).symm,
    Function.update_self]

/-- Other paths denote what they did. -/
theorem addedEntries_other {p : Path} (hnew : p ≠ path ++ [name]) (hparent : p ≠ path) :
    addedEntries ns path names name e p = ns.entries p := by
  rw [addedEntries, Function.update_of_ne hnew, Function.update_of_ne hparent]

/-- What has no names adds nothing out of reach. -/
theorem addedEntries_child (hdir : ns.entries path = some (.directory names)) (hname : name ∉ names)
    (he : e.names = []) (p : Path) (x : Name) :
    (∃ b, addedEntries ns path names name e (p ++ [x]) = some b)
      ↔ ∃ b, addedEntries ns path names name e p = some b ∧ x ∈ b.names := by
  have hold := ns.child p x
  by_cases hnew : p ++ [x] = path ++ [name]
  · obtain ⟨rfl, hx⟩ := List.append_inj' hnew rfl
    obtain rfl := (List.cons.inj hx).1
    rw [addedEntries_new, addedEntries_parent]
    exact ⟨fun _ => ⟨_, rfl, List.mem_append_right names List.mem_cons_self⟩, fun _ => ⟨e, rfl⟩⟩
  by_cases hbelow : p = path ++ [name]
  · -- the new entry was not there, and has nothing below it
    subst hbelow
    rw [addedEntries_new, addedEntries_other hnew, hold]
    · constructor
      · rintro ⟨b, hb, -⟩
        obtain ⟨d, hd, hmem⟩ := (ns.child path name).mp ⟨b, hb⟩
        rw [hdir] at hd
        cases hd
        exact absurd hmem hname
      · rintro ⟨b, hb, hmem⟩
        cases hb
        rw [he] at hmem
        cases hmem
    · intro heq
      have hlen := congrArg List.length heq
      simp only [List.length_append, List.length_singleton] at hlen
      omega
  by_cases hparent : p = path
  · subst hparent
    rw [addedEntries_parent, addedEntries_other hnew (append_singleton_ne p x), hold, hdir]
    constructor
    · rintro ⟨b, hb, hmem⟩
      cases hb
      exact ⟨_, rfl, List.mem_append_left [name] hmem⟩
    · rintro ⟨b, hb, hmem⟩
      cases hb
      refine ⟨_, rfl, (List.mem_append.mp hmem).resolve_right ?_⟩
      intro hlast
      exact hnew (by rw [List.mem_singleton.mp hlast])
  · rw [addedEntries_other hbelow hparent, ← hold]
    by_cases hx : p ++ [x] = path
    · rw [hx, addedEntries_parent, hdir]
      exact ⟨fun _ => ⟨_, rfl⟩, fun _ => ⟨_, rfl⟩⟩
    · rw [addedEntries_other hnew hx]

/-- A new name in the directory at `path`, for something without names. -/
def Namespace.add (ns : Namespace) (path : Path) (names : List Name) (name : Name) (e : Entry) :
    Namespace :=
  if h : ns.entries path = some (.directory names) ∧ name ∉ names ∧ e.names = [] then
    { entries := addedEntries ns path names name e
      root := by
        by_cases hpath : path = []
        · rw [← hpath, addedEntries_parent]
          exact ⟨_, rfl⟩
        · rw [addedEntries_other (by simp) (Ne.symm hpath)]
          exact ns.root
      child := addedEntries_child h.1 h.2.1 h.2.2 }
  else ns

/-- The file at `path` gets other bytes. -/
def Namespace.write (ns : Namespace) (path : Path) (old : Option (List Byte))
    (content : List Byte) : Namespace :=
  if h : ns.entries path = some (.file old) then
    { entries := Function.update ns.entries path (some (.file (some content)))
      root := by
        obtain ⟨names, hroot⟩ := ns.root
        refine ⟨names, ?_⟩
        rw [Function.update_of_ne ?_, hroot]
        rintro rfl
        rw [hroot] at h
        cases h
      child := by
        intro p x
        have hold := ns.child p x
        by_cases hx : p ++ [x] = path
        · rw [hx] at hold
          rw [hx, Function.update_self, Function.update_of_ne (by rintro rfl; simp at hx), ← hold,
            h]
          exact ⟨fun _ => ⟨_, rfl⟩, fun _ => ⟨_, rfl⟩⟩
        · rw [Function.update_of_ne hx, hold]
          by_cases hp : p = path
          · subst hp
            rw [Function.update_self, h]
            constructor <;>
            · rintro ⟨b, hb, hmem⟩
              cases hb
              cases hmem
          · rw [Function.update_of_ne hp] }
  else ns

/-- A new entry in a directory changes that path and the directory's list.
-/
theorem Namespace.add_entries (hdir : ns.entries path = some (.directory names))
    (hname : name ∉ names) (he : e.names = []) :
    (ns.add path names name e).entries = addedEntries ns path names name e := by
  rw [Namespace.add, dif_pos ⟨hdir, hname, he⟩]

/-- A write changes one path. -/
theorem Namespace.write_entries (hfile : ns.entries path = some (.file old))
    (content : List Byte) :
    (ns.write path old content).entries
      = Function.update ns.entries path (some (.file (some content))) := by
  rw [Namespace.write, dif_pos hfile]

-- =============================================================== resolving

/-- From `front` along the names: where they lead, or the error. -/
def Namespace.descend (ns : Namespace) (front : Path) : Path → Except Int Path
  | [] => .ok front
  | name :: names =>
      if vfsMaxComponentLen ≤ name.length then .error kernelEinval
      else if ns.entries (front ++ [name]) = none then .error kernelEnoent
      else descend ns (front ++ [name]) names

/-- The path that a path string leads to, from the root. -/
def Namespace.resolve (ns : Namespace) : Option Path → Except Int Path
  | none => .error kernelEinval
  | some path => ns.descend [] path

-- ================================================================ requests

/-- A call as the file system sees it: a path is its components, and a
buffer that is written from the bytes in it. -/
inductive Request
  | add (e : Entry) (path : Option Path) (name : Option Name)
  | openPath (path : Option Path)
  | read (fd : Int) (buffer size : Nat)
  | write (fd : Int) (bytes : Option (List Byte))
  | close (fd : Int)

/-- Who calls, and whether the call gets the memory it asks for. -/
structure FileRequest where
  caller : Option ProcessPtr
  failed : Bool
  request : Request

/-- The code, and the bytes put into a caller's buffer. -/
abbrev Answer := Int × List Byte

/-- A name space and what the descriptors of each process denote. -/
structure FileSpace where
  names : Namespace
  descriptors : ProcessPtr → Int → Option Path

/-- A root, and nothing open. -/
def FileSpace.start : FileSpace := ⟨.empty, fun _ _ => none⟩

/-- A descriptor denotes another path, or none. -/
def FileSpace.setDescriptor (a : FileSpace) (process : ProcessPtr) (fd : Int)
    (path : Option Path) : FileSpace :=
  { a with descriptors := fun other fd' =>
      if other = process ∧ fd' = fd then path else a.descriptors other fd' }

/-- The lowest descriptor that denotes nothing. -/
def FileSpace.lowestFree (a : FileSpace) (process : ProcessPtr) : Option Nat :=
  (List.range fdMax).find? fun fd => (a.descriptors process fd).isNone

/-- The lowest free descriptor denotes the path. -/
def FileSpace.allocate (a : FileSpace) (process : ProcessPtr) (path : Path) : Int × FileSpace :=
  match a.lowestFree process with
  | none => (kernelEnomem, a)
  | some fd => (fd, a.setDescriptor process fd (some path))

/-- A new entry in a directory. -/
def FileSpace.add (a : FileSpace) (e : Entry) (path : Option Path) (name : Option Name)
    (failed : Bool) : Int × FileSpace :=
  match a.names.resolve path, name with
  | .error rc, _ => (rc, a)
  | .ok _, none => (kernelEinval, a)
  | .ok path, some name =>
      match a.names.entries path with
      | some (.directory names) =>
          if name ∈ names then (kernelEexist, a)
          else if names.length ≥ ramfsMaxChildren ∨ failed then (kernelEnomem, a)
          else (kernelSuccess, { a with names := a.names.add path names name e })
      | _ => (kernelEnotsup, a)

/-- A descriptor for a path. -/
def FileSpace.openPath (a : FileSpace) (process : ProcessPtr) (path : Option Path)
    (failed : Bool) : Int × FileSpace :=
  match a.names.resolve path with
  | .error rc => (rc, a)
  | .ok path => if failed then (kernelEnomem, a) else a.allocate process path

/-- The first bytes of a file. -/
def FileSpace.read (a : FileSpace) (path : Path) (buffer size : Nat) : Answer :=
  if buffer = null then (kernelEinval, [])
  else
    match a.names.entries path with
    | some (.file none) => (kernelSuccess, [])
    | some (.file (some content)) => (toInt (content.take size).length, content.take size)
    | _ => (kernelEnotsup, [])

/-- The file's bytes from its start. -/
def FileSpace.write (a : FileSpace) (path : Path) (bytes : Option (List Byte))
    (failed : Bool) : Int × FileSpace :=
  match bytes, a.names.entries path with
  | none, _ => (kernelEinval, a)
  | some content, some (.file old) =>
      if old = none ∧ failed then (kernelEnomem, a)
      else (kernelSuccess, { a with names := a.names.write path old content })
  | some _, _ => (kernelEnotsup, a)

/-- The answer to a request, and the files after it. -/
def FileSpace.serve (a : FileSpace) (r : FileRequest) : Answer × FileSpace :=
  match r.request, r.caller with
  | .add e path name, _ => (((a.add e path name r.failed).1, []), (a.add e path name r.failed).2)
  | _, none => ((kernelEinval, []), a)
  | .openPath path, some process =>
      (((a.openPath process path r.failed).1, []), (a.openPath process path r.failed).2)
  | .read fd buffer size, some process =>
      match a.descriptors process fd with
      | none => ((kernelEnoent, []), a)
      | some path => (a.read path buffer size, a)
  | .write fd bytes, some process =>
      match a.descriptors process fd with
      | none => ((kernelEnoent, []), a)
      | some path => (((a.write path bytes r.failed).1, []), (a.write path bytes r.failed).2)
  | .close fd, some process =>
      match a.descriptors process fd with
      | none => ((kernelEinval, []), a)
      | some _ => ((kernelSuccess, []), a.setDescriptor process fd none)

end ZenithOS.Fs
