/-
Reading a file through one handle.

`ReadsOn` is what a caller expects of a sequence of reads: each goes on
where the last one stopped. `ramfs_read` counts the position forward but
copies from the beginning of the file every time, and returns the number
of bytes as an `int`. `Repeats` is when neither shows: beyond the first
read that delivers something, the piece that is due is the same as the
beginning of the file.
-/
import ZenithOS.Fs.Proofs.Runs

namespace ZenithOS.Fs

open Lib Klib Mm Vmm

variable {v v' : Vfs} {node file buffer size asked : Nat} {data got : List Byte}
  {reads : List (Nat × Nat)} {refuse : Bool}

-- ================================================================= files

/-- The node of a regular file, as `ramfs_create` makes them. -/
structure Regular (v : Vfs) (node : Nat) : Prop where
  ne_null : node ≠ null
  ops : (v.nodes node).vnode.ops = some .ramfsVnodeOps
  type : (v.nodes node).vnode.type = .file
  self : (v.nodes node).vnode.privateData = node
  size_lt : (v.nodes node).vnode.size < 2 ^ 64

/-- The bytes of a file. -/
def contents (v : Vfs) (node : Nat) : List Byte :=
  if (v.nodes node).data = null then []
  else (List.range (v.nodes node).vnode.size).map fun i => v.heap.mem ((v.nodes node).data + i)

/-- The handle stands for the file with these bytes. -/
structure Handle (v : Vfs) (file node : Nat) (data : List Byte) : Prop where
  ne_null : file ≠ null
  at_node : (v.files file).node = node
  regular : Regular v node
  bytes : contents v node = data

/-- The data is no longer than the size. -/
theorem Handle.length_le (h : Handle v file node data) :
    data.length ≤ (v.nodes node).vnode.size := by
  rw [← h.bytes]
  unfold contents
  split_ifs <;> simp

-- ============================================================== the call

/-- One call: the first `size` bytes, whatever the position. -/
theorem Handle.read (h : Handle v file node data) (hbuffer : buffer ≠ null) (size : Nat) :
    ∃ v', vfsRead file buffer size v = (toInt (data.take size).length, data.take size, v') ∧
      Handle v' file node data ∧
      (v'.files file).position
        = if (v.nodes node).data = null then (v.files file).position
          else wordAdd (v.files file).position (data.take size).length := by
  have hr := h.regular
  have hdata := h.bytes
  unfold vfsRead
  rw [if_neg h.ne_null, h.at_node, if_neg hr.ne_null]
  simp only [hr.ops, ramfsRead, h.at_node, hr.type, hr.self]
  rw [if_neg (by simp [h.ne_null, hbuffer]), if_neg hr.ne_null, if_neg (by simp)]
  unfold contents at hdata
  by_cases hnull : (v.nodes node).data = null
  · rw [if_pos hnull] at hdata ⊢
    subst hdata
    exact ⟨v, by simp [toInt, kernelSuccess], h, by rw [if_pos hnull]⟩
  · rw [if_neg hnull] at hdata ⊢
    have hlen : data.length = (v.nodes node).vnode.size := by
      rw [← hdata, List.length_map, List.length_range]
    have hbytes : (if size > (v.nodes node).vnode.size then (v.nodes node).vnode.size else size)
        = (data.take size).length := by
      rw [List.length_take, hlen]
      split_ifs <;> omega
    have htake : (List.range (data.take size).length).map
        (fun i => v.heap.mem ((v.nodes node).data + i)) = data.take size := by
      rw [List.length_take, ← hdata, List.length_map, List.length_range, ← List.map_take,
        List.take_range]
    rw [hbytes, htake]
    refine ⟨_, rfl,
      ⟨h.ne_null, ?_, ⟨hr.ne_null, hr.ops, hr.type, hr.self, hr.size_lt⟩, h.bytes⟩, ?_⟩
    · simp [setFile]
    · simp [setFile, hnull]

-- ============================================================ sequences

/-- The state of a caller that has got the bytes `got` and asked for
`asked`: it has the first bytes of the file, and the position counts
them. -/
structure Here (v : Vfs) (file : Nat) (data got : List Byte) (asked : Nat) : Prop where
  bytes : got = data.take asked
  position : (v.files file).position = got.length
  le : (v.files file).position ≤ data.length

/-- Reads into a buffer, a buffer and a size each: every one delivers
what comes next, and returns how much that is. -/
def ReadsOn (file : Nat) (data : List Byte) : Vfs → List Byte → Nat → List (Nat × Nat) → Prop
  | v, got, asked, [] => Here v file data got asked
  | v, got, asked, (buffer, size) :: reads =>
      Here v file data got asked ∧
        (vfsRead file buffer size v).1 = (vfsRead file buffer size v).2.1.length ∧
        ReadsOn file data (vfsRead file buffer size v).2.2
          (got ++ (vfsRead file buffer size v).2.1) (asked + size) reads

/-- No read delivers 2 GiB, and each that is not empty is the first one
or inside the file and due the same bytes as the first. -/
def Repeats (data : List Byte) : Nat → List (Nat × Nat) → Prop
  | _, [] => True
  | asked, (_, size) :: reads =>
      (data.take size).length < 2 ^ 31 ∧
        (size = 0 ∨ data.take asked = [] ∨
          asked + size ≤ data.length ∧ (data.drop asked).take size = data.take size) ∧
        Repeats data (asked + size) reads

/-- The first read gets the bytes at its place. -/
theorem ReadsOn.here (h : ReadsOn file data v got asked reads) : Here v file data got asked := by
  cases reads with
  | nil => exact h
  | cons r reads => exact h.1

/-- A count is returned as itself when it fits an `int`. -/
theorem toInt_eq_iff (n : Nat) : toInt n = n ↔ n < 2 ^ 31 := by
  unfold toInt
  rw [BitVec.toInt_eq_toNat_cond, BitVec.toNat_ofNat]
  split_ifs <;> omega

/-- One more read continues the first bytes of the file. -/
theorem take_append_take_iff (data : List Byte) (asked size : Nat) :
    data.take asked ++ data.take size = data.take (asked + size)
      ↔ size = 0 ∨ data.take asked = [] ∨
        asked + size ≤ data.length ∧ (data.drop asked).take size = data.take size := by
  rw [List.take_add, List.append_cancel_left_eq]
  constructor
  · intro h
    have hlen := congrArg List.length h
    rw [List.length_take, List.length_take, List.length_drop] at hlen
    by_cases hsize : size = 0
    · exact .inl hsize
    · by_cases hnone : data.take asked = []
      · exact .inr (.inl hnone)
      · have hpos := List.length_pos_iff.mpr hnone
        rw [List.length_take] at hpos
        exact .inr (.inr ⟨by omega, h.symm⟩)
  · rintro (rfl | hnone | ⟨-, h⟩)
    · rw [List.take_zero, List.take_zero]
    · rcases List.take_eq_nil_iff.mp hnone with rfl | rfl
      · rw [List.drop_zero]
      · rw [List.drop_nil]
    · exact h.symm

/-- A sequence of reads from a position that is right. -/
theorem Handle.readsOn_iff (h : Handle v file node data) (hhere : Here v file data got asked)
    (hreads : ∀ r ∈ reads, r.1 ≠ null) :
    ReadsOn file data v got asked reads ↔ Repeats data asked reads := by
  induction reads generalizing v got asked with
  | nil => exact ⟨fun _ => trivial, fun _ => hhere⟩
  | cons r reads ih =>
      obtain ⟨buffer, size⟩ := r
      obtain ⟨hbuffer, hrest⟩ := List.forall_mem_cons.mp hreads
      obtain ⟨v', hread, h', hposition⟩ := h.read hbuffer size
      have hsize := h.length_le
      have hword := h.regular.size_lt
      unfold ReadsOn Repeats
      rw [hread]
      dsimp only
      rw [toInt_eq_iff, ← take_append_take_iff]
      have hpos' : (v'.files file).position
          = wordAdd (v.files file).position (data.take size).length := by
        rw [hposition]
        split_ifs with hnull
        · have hempty : data = [] := by
            rw [← h.bytes, contents, if_pos hnull]
          have hle := hhere.le
          rw [hempty] at hle ⊢
          rw [List.take_nil, List.length_nil, wordAdd_eq (by simp at hle; omega), Nat.add_zero]
        · rfl
      constructor
      · rintro ⟨-, hsmall, hnext⟩
        have hhere' := hnext.here
        refine ⟨hsmall, ?_, (ih h' hhere' hrest).mp hnext⟩
        rw [← hhere.bytes]
        exact hhere'.bytes
      · rintro ⟨hsmall, hjoin, hnext⟩
        have hhere' : Here v' file data (got ++ data.take size) (asked + size) := by
          have hbytes : got ++ data.take size = data.take (asked + size) := by
            rw [hhere.bytes, hjoin]
          have hle : (got ++ data.take size).length ≤ data.length := by
            rw [hbytes, List.length_take]
            omega
          have hsum : (v'.files file).position = (got ++ data.take size).length := by
            rw [hpos', hhere.position, List.length_append, wordAdd_eq]
            rw [List.length_append] at hle
            omega
          exact ⟨hbytes, hsum, hsum ▸ hle⟩
        exact ⟨hhere, hsmall, (ih h' hhere' hrest).mpr hnext⟩

-- =============================================================== opening

/-- What `file_open` returns stands for the file, at position 0. -/
theorem fileOpen_handle (hnode : Regular v node)
    (hopen : fileOpen node refuse v = some (kernelSuccess, some file, v')) :
    Handle v' file node (contents v' node) ∧ Here v' file (contents v' node) [] 0 := by
  unfold fileOpen at hopen
  rw [if_neg hnode.ne_null] at hopen
  obtain ⟨⟨p, heap⟩, -, hopen⟩ := Option.bind_eq_some_iff.mp hopen
  dsimp only at hopen
  split_ifs at hopen with hp
  · injection hopen with hopen
    exact absurd (congrArg Prod.fst hopen) enomem_ne
  · injection hopen with hopen
    injection hopen with _ hopen
    injection hopen with hfile hv'
    obtain rfl := Option.some.inj hfile
    subst hv'
    refine ⟨⟨hp, ?_, ⟨hnode.ne_null, hnode.ops, hnode.type, hnode.self, hnode.size_lt⟩, rfl⟩, ?_⟩
    · simp [setFile]
    · exact ⟨rfl, by simp [setFile], by simp [setFile]⟩

/-- The reads of a file that has just been opened go on where the last
one stopped exactly when none delivers 2 GiB and every one beyond the
first that is not empty is due the bytes at the beginning of the file. -/
theorem reads_continue_iff (hnode : Regular v node)
    (hopen : fileOpen node refuse v = some (kernelSuccess, some file, v'))
    (hreads : ∀ r ∈ reads, r.1 ≠ null) :
    ReadsOn file (contents v' node) v' [] 0 reads ↔ Repeats (contents v' node) 0 reads := by
  obtain ⟨hhandle, hhere⟩ := fileOpen_handle hnode hopen
  exact hhandle.readsOn_iff hhere hreads

/-- A file that is there at the end of a run, opened once more. -/
theorem opened_after {ops : List FsOp} {bytes : List Byte} (hnull : node ≠ null)
    (hfinal : (runOps fsStep (fsSysInit bootVfs) ops).bind (fun y =>
      (fileOpen node false y.vfs).map fun r =>
        let vnode := (y.vfs.nodes node).vnode
        (decide (vnode.ops = some .ramfsVnodeOps ∧ vnode.type = .file
            ∧ vnode.privateData = node ∧ vnode.size < 2 ^ 64),
          r.1, r.2.1.isSome, contents r.2.2 node))
      = some (true, kernelSuccess, true, bytes)) :
    ∃ v v' file, Regular v node ∧
      fileOpen node false v = some (kernelSuccess, some file, v') ∧ contents v' node = bytes := by
  obtain ⟨y, -, hy⟩ := Option.bind_eq_some_iff.mp hfinal
  obtain ⟨⟨rc, file, v'⟩, hopen, hvalues⟩ := Option.map_eq_some_iff.mp hy
  injection hvalues with hnode hvalues
  injection hvalues with hrc hvalues
  injection hvalues with hsome hbytes
  obtain ⟨hops, htype, hself, hsize⟩ := of_decide_eq_true hnode
  obtain ⟨p, rfl⟩ := Option.isSome_iff_exists.mp hsome
  obtain rfl : rc = kernelSuccess := hrc
  exact ⟨y.vfs, v', p, ⟨hnull, hops, htype, hself, hsize⟩, hopen, hbytes⟩

/-- The file of `oneFile`. -/
theorem oneFile_opened :
    ∃ v v' file, Regular v 0xFFFF900000000320 ∧
      fileOpen 0xFFFF900000000320 false v = some (kernelSuccess, some file, v') ∧
      contents v' 0xFFFF900000000320 = [1#8, 2#8, 3#8] := by
  exact opened_after (by decide)
    (show (runOps fsStep (fsSysInit bootVfs) oneFile).bind _ = _ by decide +kernel)

/-- The second file of `twoFiles`. -/
theorem repeatedFile_opened :
    ∃ v v' file, Regular v 0xFFFF9000000005D0 ∧
      fileOpen 0xFFFF9000000005D0 false v = some (kernelSuccess, some file, v') ∧
      contents v' 0xFFFF9000000005D0 = [5#8, 6#8, 5#8, 6#8] :=
  opened_after (by decide)
    (show (runOps fsStep (fsSysInit bootVfs) twoFiles).bind _ = _ by decide +kernel)

/-- Two reads of a file in which two bytes are repeated. -/
theorem reads_continue_iff_repeated :
    ∃ v v' file, fileOpen 0xFFFF9000000005D0 false v = some (kernelSuccess, some file, v') ∧
      contents v' 0xFFFF9000000005D0 = [5#8, 6#8, 5#8, 6#8] ∧
      ReadsOn file [5#8, 6#8, 5#8, 6#8] v' [] 0 [(0x9000, 2), (0x9800, 2)] := by
  obtain ⟨v, v', file, hnode, hopen, hbytes⟩ :=
    repeatedFile_opened
  have hreads : ∀ r ∈ [(0x9000, 2), (0x9800, 2)], r.1 ≠ null := by decide
  have hiff := reads_continue_iff hnode hopen hreads
  rw [hbytes] at hiff
  refine ⟨v, v', file, hopen, hbytes, hiff.mpr ⟨by decide, .inr (.inl rfl), by decide, ?_, trivial⟩⟩
  exact .inr (.inr (by decide))

/-- Two reads of two bytes: the second one begins at the beginning again. -/
theorem reads_start_again :
    ∃ v v' file, Regular v 0xFFFF900000000320 ∧
      fileOpen 0xFFFF900000000320 false v = some (kernelSuccess, some file, v') ∧
      ¬ ReadsOn file (contents v' 0xFFFF900000000320) v' [] 0 [(0x9000, 2), (0x9000, 2)] := by
  obtain ⟨v, v', file, hnode, hopen, hbytes⟩ :=
    oneFile_opened
  refine ⟨v, v', file, hnode, hopen, fun h => ?_⟩
  obtain ⟨hhandle, hhere⟩ := fileOpen_handle hnode hopen
  have hrepeats := (hhandle.readsOn_iff hhere (by decide)).mp h
  rw [hbytes] at hrepeats
  exact absurd hrepeats.2.2.2.1 (by decide)

end ZenithOS.Fs
