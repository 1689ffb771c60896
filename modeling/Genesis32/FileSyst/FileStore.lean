import Genesis32.FileSyst.GrowingWrite
import Genesis32.Library.ByteLists
import Genesis32.Library.Refinement

/-!
# Open files on a volume

Files are opened several times and read and written in any order. A store says what comes of that:
a node holds bytes, an open file is an offset into them, and a number of clusters is free. A write
puts its bytes over those of the node. What comes behind the end is lost, with a cluster for every
block of it, except that an empty node gets the bytes of the first block. On a volume whose files
share no cluster `read_fat16` and `write_fat16` refine this store.
-/

namespace Genesis32

open Word

/-! ## The store -/

/-- A call on an open file of type `φ`: `read_fat16`, `write_fat16`, or a caller that sets
`offset`. -/
inductive FileCall (φ : Type*) where
  | read (fd : φ) (buffer : ByteMem) (size : Nat)
  | write (fd : φ) (buffer : ByteMem) (size : Nat)
  | setOffset (fd : φ) (offset : Nat)

/-- What a call returns, with the bytes that a read brings. -/
structure FileResult where
  count : Nat
  bytes : List UInt8

/-- Nodes of type `ν` that hold bytes, open files on them, and a number of free clusters. -/
structure Store (φ ν : Type*) where
  node : φ → ν
  offset : φ → Nat
  content : ν → List UInt8
  free : Nat

/-- The first `n` bytes of a buffer. -/
def bufferBytes (buffer : ByteMem) (n : Nat) : List UInt8 := (List.range n).map buffer

variable {φ ν : Type*}

/-- The clusters that a write of `size` bytes takes, with clusters of `cs` bytes. -/
def Store.needed (cs : Nat) (t : Store φ ν) (fd : φ) (size : Nat) : Nat :=
  (t.offset fd + size - 1) / cs + 1 - (t.content (t.node fd)).length / cs

section

variable [DecidableEq φ] [DecidableEq ν]

/-- Set the offset of an open file, a 32-bit word. -/
def Store.seek (t : Store φ ν) (fd : φ) (offset : Nat) : Store φ ν :=
  { t with offset := Function.update t.offset fd (offset % 4294967296) }

/-- Put the bytes of a buffer over `base` at the offset of an open file. -/
def Store.put (cs : Nat) (t : Store φ ν) (fd : φ) (base : List UInt8) (buffer : ByteMem)
    (size : Nat) : Store φ ν :=
  Store.seek { t with
    content := Function.update t.content (t.node fd)
      (overwrite base (t.offset fd) (bufferBytes buffer size))
    free := t.free - t.needed cs fd size } fd (t.offset fd + size)

/-- What may come of a write: an empty node gets a block of which only the bytes that are written
are known. -/
def Store.Wrote (cs : Nat) (t : Store φ ν) (fd : φ) (buffer : ByteMem) (size : Nat)
    (t' : Store φ ν) : Prop :=
  if size = 0 then t' = t
  else ∃ base, (t.content (t.node fd) ≠ [] → base = t.content (t.node fd)) ∧
    (t.content (t.node fd) = [] → base.length = cs) ∧ t' = t.put cs fd base buffer size

/-- The contract of the file functions. A write needs its free clusters. -/
def Store.contract (cs : Nat) : Contract (Store φ ν) (FileCall φ) FileResult where
  pre
    | .write fd _ size, t => size = 0 ∨ t.needed cs fd size ≤ t.free
    | _, _ => True
  post
    | .read fd _ size, t, result, t' =>
        let bytes := ((t.content (t.node fd)).drop (t.offset fd)).take size
        result = ⟨bytes.length, bytes⟩ ∧ t' = t.seek fd (t.offset fd + bytes.length)
    | .write fd buffer size, t, result, t' => result = ⟨size, []⟩ ∧ t.Wrote cs fd buffer size t'
    | .setOffset fd offset, t, result, t' => result = ⟨0, []⟩ ∧ t' = t.seek fd offset

end

/-! ## The files -/

/-- The fields of `struct vfs_node` that the file functions use. -/
structure NodeFields where
  fsSpecific : Nat
  size : Nat
  dirtyBit : Nat

/-- Open files, each a `struct file` with a pointer to a node, the nodes, and the disk. -/
structure FileTable (φ ν : Type*) where
  node : φ → ν
  offset : φ → Nat
  fields : ν → NodeFields
  block : BlockState

/-- An open file as the file functions see it. -/
def FileTable.file (t : FileTable φ ν) (fd : φ) : Fat16File :=
  let n := t.fields (t.node fd)
  ⟨t.offset fd, n.fsSpecific, n.size, n.dirtyBit⟩

/-- A node as the file functions see it. -/
def FileTable.nodeFile (t : FileTable φ ν) (i : ν) : Fat16File :=
  ⟨0, (t.fields i).fsSpecific, (t.fields i).size, (t.fields i).dirtyBit⟩

section

variable [DecidableEq φ] [DecidableEq ν]

/-- Store what a call has left of an open file, of its node and of the disk. -/
def FileTable.put (t : FileTable φ ν) (fd : φ) (f : Fat16File) (s : BlockState) :
    FileTable φ ν :=
  { t with
    offset := Function.update t.offset fd f.offset
    fields := Function.update t.fields (t.node fd) ⟨f.fsSpecific, f.size, f.dirtyBit⟩
    block := s }

/-- The file functions as an object. As many rounds as there are bytes are enough. -/
def FileTable.object (env : BlockEnv) (m : Fat16Mount) :
    Object (FileTable φ ν) (FileCall φ) FileResult
  | .read fd buffer size, t =>
      (readFat16 env m size (t.file fd) buffer size t.block).map fun (n, buffer, f, s) =>
        (⟨n, bufferBytes buffer n⟩, t.put fd f s)
  | .write fd buffer size, t =>
      (writeFat16 env m size (t.file fd) buffer size t.block).map fun (n, f, s) =>
        (⟨n, []⟩, t.put fd f s)
  | .setOffset fd offset, t =>
      some (⟨0, []⟩, { t with offset := Function.update t.offset fd (offset % 4294967296) })

end

/-! ## What the files hold -/

/-- The nodes of a table are files that share no cluster, and `free` clusters are free. -/
structure FileTable.FilesOk (m : Fat16Mount) (hi free : Nat) (t : FileTable φ ν) : Prop where
  small : ∀ fd, t.offset fd < 4294967296
  file : ∀ i, m.FileOk hi t.block.disk (t.nodeFile i)
  apart : ∀ i j, i ≠ j → ChainsApart m t.block.disk (t.nodeFile i) (t.nodeFile j)
  room : m.Room hi t.block.disk free

/-- The chain of a file has the bytes of `content`. -/
structure HasContent (m : Fat16Mount) (disk : ByteMem) (f : Fat16File) (content : List UInt8) :
    Prop where
  length : ∃ len : Nat,
    Chain.HasLength (m.nextCluster disk) (Fat16Mount.startCluster f) ((len : Nat) : ℕ∞) ∧
      content.length = len * m.clusterSize
  bytes : ∀ p, m.chainByte disk f p = content[p]?

/-- The files hold the bytes of a store. Of the rest of `disk₀` only FATs and free clusters have
changed, and no entry that was not zero. -/
structure FileTable.Holds (m : Fat16Mount) (hi : Nat) (disk₀ : ByteMem) (t : FileTable φ ν)
    (store : Store φ ν) : Prop extends t.FilesOk m hi store.free where
  node : t.node = store.node
  offset : t.offset = store.offset
  content : ∀ i, HasContent m t.block.disk (t.nodeFile i) (store.content i)
  kept : EntriesKept m disk₀ t.block.disk
  rest : ∀ x, ¬ m.InFats x → ¬ m.InFree hi disk₀ x →
    (∀ i p, m.chainAddr t.block.disk (t.nodeFile i) p ≠ some x) → t.block.disk x = disk₀ x

variable {env : BlockEnv} {m : Fat16Mount} {f g : Fat16File} {hi cs free : Nat}
  {disk disk' disk₀ : ByteMem} {t : FileTable φ ν} {store store' : Store φ ν}
  {content : List UInt8}

/-- Every file has some content. -/
theorem Fat16Mount.FileOk.hasContent (hfile : m.FileOk hi disk f) (hsize : 0 < m.clusterSize) :
    ∃ content, HasContent m disk f content := by
  obtain ⟨len, hlen⟩ := hfile.finite
  refine ⟨(List.range (len * m.clusterSize)).map fun p => (m.chainByte disk f p).getD 0x00,
    ⟨len, hlen, by rw [List.length_map, List.length_range]⟩, fun p => ?_⟩
  have hsome : (m.chainByte disk f p).isSome ↔ p < len * m.clusterSize := by
    rw [Fat16Mount.chainByte, Option.isSome_map, Fat16Mount.chainAddr, Option.isSome_map,
      ← Nat.div_lt_iff_lt_mul hsize]
    exact (hlen (p / m.clusterSize)).trans Nat.cast_lt
  by_cases hp : p < len * m.clusterSize
  · obtain ⟨byte, hbyte⟩ := Option.isSome_iff_exists.mp (hsome.mpr hp)
    rw [List.getElem?_map, List.getElem?_range hp, Option.map_some, hbyte, Option.getD_some]
  · rw [List.getElem?_eq_none (by rw [List.length_map, List.length_range]; omega)]
    exact Option.not_isSome_iff_eq_none.mp fun h => hp (hsome.mp h)

/-- A table of files holds a store. -/
theorem FileTable.FilesOk.holds (h : t.FilesOk m hi free) (hsize : 0 < m.clusterSize) :
    ∃ store : Store φ ν, store.free = free ∧ t.Holds m hi t.block.disk store := by
  choose content hcontent using fun i => (h.file i).hasContent hsize
  exact ⟨⟨t.node, t.offset, content, free⟩, rfl, h, rfl, rfl, hcontent, fun _ _ _ => rfl,
    fun _ _ _ _ => rfl⟩

/-! ## Lists of bytes -/

theorem length_bytes (buffer : ByteMem) (n : Nat) : (bufferBytes buffer n).length = n := by
  rw [bufferBytes, List.length_map, List.length_range]

theorem get_bytes (buffer : ByteMem) {n i : Nat} (hi : i < n) :
    (bufferBytes buffer n)[i]? = some (buffer i) := by
  rw [bufferBytes, List.getElem?_map, List.getElem?_range hi, Option.map_some]

/-! ## The content of a file -/

theorem cluster_of_specific (h : f.fsSpecific = g.fsSpecific) (k : Nat) :
    m.cluster disk f k = m.cluster disk g k := by
  rw [Fat16Mount.cluster, Fat16Mount.cluster, Fat16Mount.startCluster, Fat16Mount.startCluster, h]

theorem chain_addr_of_specific (h : f.fsSpecific = g.fsSpecific) (p : Nat) :
    m.chainAddr disk f p = m.chainAddr disk g p := by
  rw [Fat16Mount.chainAddr, Fat16Mount.chainAddr, cluster_of_specific h]

/-- What depends on the first cluster of a file only. -/
theorem Fat16Mount.FileOk.of_specific (h : m.FileOk hi disk f)
    (heq : g.fsSpecific = f.fsSpecific) : m.FileOk hi disk g := by
  have hsame : ∀ k, m.cluster disk g k = m.cluster disk f k := cluster_of_specific heq
  refine ⟨fun k c hc => h.chain k c ((hsame k).symm.trans hc),
    fun k c hc => h.taken k c ((hsame k).symm.trans hc), ?_⟩
  rw [show Fat16Mount.startCluster g = Fat16Mount.startCluster f from hsame 0]
  exact h.finite

theorem HasContent.of_specific (h : HasContent m disk f content)
    (heq : g.fsSpecific = f.fsSpecific) : HasContent m disk g content := by
  have hsame : ∀ k, m.cluster disk g k = m.cluster disk f k := cluster_of_specific heq
  refine ⟨?_, fun p => ?_⟩
  · rw [show Fat16Mount.startCluster g = Fat16Mount.startCluster f from hsame 0]
    exact h.length
  · rw [← h.bytes, Fat16Mount.chainByte, Fat16Mount.chainByte, chain_addr_of_specific heq]

/-- A write to another file keeps the content. -/
theorem HasContent.other (h : HasContent m disk g content) (hg : m.FileOk hi disk g)
    (h512 : m.Sectors512) {p n idx : Nat} {buffer : ByteMem}
    (hgrown : Grown m hi disk f p n idx buffer disk') (hapart : ChainsApart m disk f g) :
    HasContent m disk' g content := by
  obtain ⟨⟨len, hlen, hlength⟩, hbytes⟩ := h
  refine ⟨⟨len, has_length_same (hgrown.kept.cluster_eq hg.chain hg.taken) hlen, hlength⟩,
    fun p => ?_⟩
  rw [hgrown.other hg h512 hapart, hbytes]

/-- A write to the file puts its bytes over the content. -/
theorem HasContent.own (h : HasContent m disk f content) (hf : m.FileOk hi disk f)
    (h512 : m.Sectors512) {p n : Nat} {buffer : ByteMem}
    (hgrown : Grown m hi disk f p n 0 buffer disk') :
    HasContent m disk' f (overwrite content p (bufferBytes buffer n)) := by
  obtain ⟨⟨len, hlen, hlength⟩, hbytes⟩ := h
  refine ⟨⟨len, has_length_same (hgrown.kept.cluster_eq hf.chain hf.taken) hlen,
    (length_overwrite _ _ _).trans hlength⟩, fun j => ?_⟩
  have hold := hbytes j
  rw [hgrown.own hf h512, overwrite_get, length_bytes]
  rw [Fat16Mount.chainByte] at hold
  cases ha : m.chainAddr disk f j with
  | none =>
      rw [ha, Option.map_none] at hold
      have hge := List.getElem?_eq_none_iff.mp hold.symm
      rw [if_neg (by omega), ← hold, Option.map_none]
  | some a =>
      rw [ha, Option.map_some] at hold
      have hlt : j < content.length := (List.getElem?_eq_some_iff.mp hold.symm).1
      rw [Option.map_some]
      by_cases hin : p ≤ j ∧ j < p + n
      · rw [if_pos hin, if_pos ⟨hin.1, hin.2, hlt⟩, get_bytes _ (by omega), Nat.zero_add]
      · rw [if_neg hin, if_neg (by omega), hold]

/-! ## The refinement -/

theorem ChainsApart.symm (h : ChainsApart m disk f g) : ChainsApart m disk g f :=
  fun i j c hi hj => h j i c hj hi

theorem ChainsApart.of_specific {f' g' : Fat16File} (h : ChainsApart m disk f g)
    (hf : f'.fsSpecific = f.fsSpecific) (hg : g'.fsSpecific = g.fsSpecific) :
    ChainsApart m disk f' g' := fun i j c hi hj =>
  h i j c ((cluster_of_specific hf i).symm.trans hi) ((cluster_of_specific hg j).symm.trans hj)

section

variable [DecidableEq φ] [DecidableEq ν]

/-- The node of an open file after a call on it. -/
theorem node_file_put_self (t : FileTable φ ν) (fd : φ) (f : Fat16File) (s : BlockState) :
    ((t.put fd f s).nodeFile (t.node fd)).fsSpecific = f.fsSpecific := by
  simp only [FileTable.nodeFile, FileTable.put, Function.update_self]

/-- Every other node. -/
theorem node_file_put_other (t : FileTable φ ν) {fd : φ} (f : Fat16File) (s : BlockState) {i : ν}
    (hi : i ≠ t.node fd) : (t.put fd f s).nodeFile i = t.nodeFile i := by
  simp only [FileTable.nodeFile, FileTable.put, Function.update_of_ne hi]

/-- What a call on an open file leaves: its own file with new content, the others with theirs. -/
theorem FileTable.Holds.put (h : t.Holds m hi disk₀ store) {fd : φ} {f : Fat16File}
    {s : BlockState} (hsmall : f.offset < 4294967296) (hfile : m.FileOk hi s.disk f)
    (hcontent : HasContent m s.disk f content)
    (hsame : ∀ p a, m.chainAddr t.block.disk (t.file fd) p = some a →
      m.chainAddr s.disk f p = some a)
    (hkept : EntriesKept m t.block.disk s.disk)
    (hothers : ∀ i, i ≠ t.node fd → HasContent m s.disk (t.nodeFile i) (store.content i))
    (hapart : ∀ i, i ≠ t.node fd → ChainsApart m s.disk f (t.nodeFile i))
    (hrest : ∀ x, ¬ m.InFats x → ¬ m.InFree hi t.block.disk x →
      (∀ p, m.chainAddr s.disk f p ≠ some x) → s.disk x = t.block.disk x)
    (hroom : m.Room hi s.disk store'.free) (hnode : store'.node = store.node)
    (hoffset : store'.offset = Function.update store.offset fd f.offset)
    (hstore : store'.content = Function.update store.content (t.node fd) content) :
    (t.put fd f s).Holds m hi disk₀ store' := by
  have hself := node_file_put_self t fd f s
  have hother : ∀ {i}, i ≠ t.node fd → (t.put fd f s).nodeFile i = t.nodeFile i :=
    fun hi => node_file_put_other t f s hi
  refine
    { small := fun fd' => ?_
      file := fun i => ?_
      apart := fun i j hij => ?_
      room := hroom
      node := h.node.trans hnode.symm
      offset := ?_
      content := fun i => ?_
      kept := h.kept.trans hkept
      rest := fun x hfats hfree hx => ?_ }
  · show Function.update t.offset fd f.offset fd' < _
    rw [Function.update_apply]
    split_ifs
    · exact hsmall
    · exact h.small fd'
  · show m.FileOk hi s.disk _
    by_cases hi : i = t.node fd
    · exact hi ▸ hfile.of_specific hself
    · rw [hother hi]
      exact (h.file i).entries_kept hkept
  · show ChainsApart m s.disk _ _
    by_cases hi : i = t.node fd
    · have hj : j ≠ t.node fd := fun hj => hij (hi.trans hj.symm)
      rw [hother hj]
      exact (hapart j hj).of_specific (hi ▸ hself) rfl
    · rw [hother hi]
      by_cases hj : j = t.node fd
      · exact (hapart i hi).symm.of_specific rfl (hj ▸ hself)
      · rw [hother hj]
        exact chains_apart_kept (h.file i) (h.file j) hkept (h.apart i j hij)
  · rw [hoffset, ← h.offset]
    rfl
  · show HasContent m s.disk _ _
    rw [hstore, Function.update_apply]
    split_ifs with hi
    · exact hi ▸ hcontent.of_specific hself
    · rw [hother hi]
      exact hothers i hi
  · have hown : ∀ p, m.chainAddr s.disk f p ≠ some x := fun p hp => by
      exact hx (t.node fd) p ((chain_addr_of_specific hself p).trans hp)
    have hfree' : ¬ m.InFree hi t.block.disk x := fun hin => hfree (h.kept.in_free hin)
    refine (hrest x hfats hfree' hown).trans (h.rest x hfats hfree fun i p hp => ?_)
    by_cases hi : i = t.node fd
    · rw [hi] at hp
      exact hown p (hsame p x hp)
    · refine hx i p (Eq.trans ?_ hp)
      rw [hother hi]
      exact (h.file i).addr_eq hkept p

/-- A read brings the bytes of the store. -/
theorem refines_read (hv : m.Volume env hi) (h : t.Holds m hi disk₀ store) (fd : φ)
    (buffer : ByteMem) (size : Nat) :
    ∃ result t' store', FileTable.object env m (.read fd buffer size) t = some (result, t') ∧
      (Store.contract cs).post (.read fd buffer size) store result store' ∧
      t'.Holds m hi disk₀ store' := by
  have hoffset : store.offset fd = t.offset fd := congrFun h.offset.symm fd
  have hnode : store.node fd = t.node fd := congrFun h.node.symm fd
  obtain ⟨⟨len, hlen, hlength⟩, hcontent⟩ := h.content (t.node fd)
  have hfile : m.FileOk hi t.block.disk (t.file fd) := (h.file (t.node fd)).of_specific rfl
  obtain ⟨r, buffer', s', hrun, hdisk, hread⟩ := read_fat16_reads hv.works hv.toSectors512
    (hv.reaches hfile.chain _ size) (h.small fd) (Nat.le_refl size) buffer
  -- the count of the read is the length of what the store gives
  have hcount : r = min size (len * m.clusterSize - t.offset fd) := by
    have hcount := hread.slice.count hlen hv.clusterSize_pos
    have hmul : ((len : Nat) : ℕ∞) * m.clusterSize - (t.file fd).offset =
        ((len * m.clusterSize - t.offset fd : Nat) : ℕ∞) := by
      push_cast
      rfl
    rw [hmul] at hcount
    have hmin : ((min size (len * m.clusterSize - t.offset fd) : Nat) : ℕ∞) =
        min (size : ℕ∞) (len * m.clusterSize - t.offset fd : Nat) := rfl
    exact_mod_cast hcount.trans hmin.symm
  have hslice : (((store.content (t.node fd)).drop (t.offset fd)).take size).length = r := by
    rw [List.length_take, List.length_drop, hlength, hcount]
  have hbytes : bufferBytes buffer' r =
      ((store.content (t.node fd)).drop (t.offset fd)).take size := by
    refine List.ext_getElem? fun i => ?_
    by_cases hi : i < r
    · have hbyte := hread.bytes i hi
      have hsize : i < size := Nat.lt_of_lt_of_le hi (hcount ▸ Nat.min_le_left _ _)
      rw [get_bytes _ hi, List.getElem?_take_of_lt hsize, List.getElem?_drop, ← hcontent,
        ← Nat.zero_add i, ← hbyte, Nat.zero_add]
      rfl
    · rw [List.getElem?_eq_none (by rw [length_bytes]; omega),
        List.getElem?_eq_none (by rw [hslice]; omega)]
  refine ⟨⟨r, bufferBytes buffer' r⟩,
    t.put fd { t.file fd with offset := add32 (t.offset fd) r } s',
    store.seek fd (t.offset fd + r), ?_, ?_, ?_⟩
  · simp only [FileTable.object]
    rw [hrun]
    rfl
  · simp only [Store.contract]
    rw [hoffset, hnode, hslice, hbytes]
    exact ⟨rfl, rfl⟩
  · exact h.put (Nat.mod_lt _ (by decide)) (hdisk ▸ (h.file _).of_specific rfl)
      (hdisk ▸ (h.content _).of_specific rfl)
      (fun p a ha => hdisk ▸ (chain_addr_of_specific rfl p).trans ha) (fun _ _ _ => by rw [hdisk])
      (fun i _ => hdisk ▸ h.content i)
      (fun i hi => hdisk ▸ (h.apart _ i (Ne.symm hi)).of_specific rfl rfl)
      (fun x _ _ _ => by rw [hdisk]) (hdisk ▸ h.room) rfl rfl (Function.update_eq_self ..).symm

/-- A write of a range does what the store says, if there are clusters for it. -/
theorem refines_write (hv : m.Volume env hi) (hspf : 1 ≤ m.bpb.sectorsPerFat)
    (h : t.Holds m hi disk₀ store) (fd : φ) (buffer : ByteMem) {size : Nat} (hpos : 1 ≤ size)
    (hneed : store.needed m.clusterSize fd size ≤ store.free) :
    ∃ t' store', FileTable.object env m (.write fd buffer size) t = some (⟨size, []⟩, t') ∧
      store.Wrote m.clusterSize fd buffer size store' ∧ t'.Holds m hi disk₀ store' := by
  have hoffset : store.offset fd = t.offset fd := congrFun h.offset.symm fd
  have hnode : store.node fd = t.node fd := congrFun h.node.symm fd
  have hsize := hv.clusterSize_pos
  have hfile : m.FileOk hi t.block.disk (t.file fd) := (h.file (t.node fd)).of_specific rfl
  have hcontent : HasContent m t.block.disk (t.file fd) (store.content (t.node fd)) :=
    (h.content (t.node fd)).of_specific rfl
  obtain ⟨len, hlen, hlength⟩ := hcontent.length
  have hneeded : store.needed m.clusterSize fd size =
      (t.offset fd + size - 1) / m.clusterSize + 1 - len := by
    rw [Store.needed, hoffset, hnode, hlength, Nat.mul_div_cancel _ hsize]
  have hsplit : store.free = store.free - store.needed m.clusterSize fd size +
      store.needed m.clusterSize fd size := by omega
  have hroom := h.room
  rw [hsplit, hneeded] at hroom
  have hput : ∀ {f' : Fat16File} {s' : BlockState}, f'.offset = add32 (t.offset fd) size →
      writeFat16 env m size (t.file fd) buffer size t.block = some (size, f', s') →
      FileTable.object env m (.write fd buffer size) t = some (⟨size, []⟩, t.put fd f' s') :=
    fun _ hrun => by
      simp only [FileTable.object]
      rw [hrun]
      rfl
  rcases Nat.eq_zero_or_pos len with rfl | hlenPos
  · -- the file is empty, and gets its first cluster
    have hnil : store.content (store.node fd) = [] := by
      rw [hnode, ← List.length_eq_zero_iff, hlength, Nat.zero_mul]
    have hempty : EndMark ((t.file fd).fsSpecific % 65536) := by
      by_contra hend
      have hnone := hlen.nth_none (Nat.le_refl 0)
      rw [Chain.nth, Fat16Mount.startCluster, if_neg hend] at hnone
      cases hnone
    obtain ⟨c, s₁, f', s', hrun, hc, hkept₁, hsame₁, hfile₁, hlen₁, hfirst, hspecific, hoff,
      hroom', _, hgrown⟩ := write_fat16_first_grows hv hspf hempty hpos (Nat.le_refl size)
      (by rwa [Nat.sub_zero] at hroom) buffer
    have hkept := hkept₁.trans hgrown.kept
    obtain ⟨base, hbase⟩ := hfile₁.hasContent hsize
    have hbaseLength : base.length = m.clusterSize := by
      obtain ⟨n, hn, hbaseLength⟩ := hbase.length
      have hone : n = 1 := by
        have hlast := hn 1
        have hzero := hn 0
        rw [hlen₁ 1] at hlast
        rw [hlen₁ 0] at hzero
        norm_cast at hlast hzero
        omega
      rw [hbaseLength, hone, Nat.one_mul]
    -- no other file has the new cluster, for it was free
    have hnew : ∀ i, ChainsApart m s₁.disk ((t.file fd).withFirst c) (t.nodeFile i) := by
      intro i k l d hk hl
      have hl' := (hkept₁.cluster_eq (h.file i).chain (h.file i).taken l).symm.trans hl
      have hd : d = c := by
        rcases Nat.eq_zero_or_pos k with rfl | hk0
        · exact Option.some.inj (hk.symm.trans hfirst)
        · rw [Fat16Mount.cluster, hlen₁.nth_none hk0] at hk
          cases hk
      exact (h.file i).taken l d hl' (hd ▸ hc.free)
    refine ⟨t.put fd f' s', store.put m.clusterSize fd base buffer size, hput hoff hrun, ?_, ?_⟩
    · rw [Store.Wrote, if_neg (by omega)]
      exact ⟨base, fun hne => absurd hnil hne, fun _ => hbaseLength, rfl⟩
    · refine h.put (hoff ▸ Nat.mod_lt _ (by decide)) ((hfile₁.entries_kept hgrown.kept).of_specific
        hspecific) ((hbase.own hfile₁ hv.toSectors512 hgrown).of_specific hspecific)
        (fun p a ha => ?_) hkept (fun i hne => ?_) (fun i _ => ?_) (fun x hfats hfree hx => ?_) ?_
        rfl ?_ ?_
      · -- an empty file has no bytes
        obtain ⟨d, hd, _⟩ := Option.map_eq_some_iff.mp ha
        rw [Fat16Mount.cluster, hlen.nth_none (Nat.zero_le _)] at hd
        cases hd
      · have htaken : Grown m hi t.block.disk (t.file fd) 0 0 0 buffer s₁.disk :=
          ⟨fun _ hj => absurd hj (Nat.not_lt_zero _), fun x hx _ _ => hsame₁ x hx, hkept₁⟩
        have hothers := (h.content i).other (h.file i) hv.toSectors512 htaken
          ((h.apart _ i (Ne.symm hne)).of_specific rfl rfl)
        exact hothers.other ((h.file i).entries_kept hkept₁) hv.toSectors512 hgrown (hnew i)
      · exact (chains_apart_kept hfile₁ ((h.file i).entries_kept hkept₁) hgrown.kept
          (hnew i)).of_specific hspecific rfl
      · rw [hgrown.outside x hfats (fun hin => hfree (hkept₁.in_free hin)) fun j _ hj => ?_,
          hsame₁ x hfats]
        exact hx _ ((chain_addr_of_specific hspecific _).trans
          ((hfile₁.addr_eq hgrown.kept _).trans hj))
      · show m.Room hi s'.disk (store.free - store.needed m.clusterSize fd size)
        rw [hneeded, Nat.sub_zero]
        exact hroom'
      · rw [hoff]
        show Function.update store.offset fd ((store.offset fd + size) % 4294967296) = _
        rw [hoffset]
        rfl
      · show Function.update store.content (store.node fd) (overwrite base (store.offset fd) _) = _
        rw [hoffset, hnode]
        rfl
  · have hne : store.content (store.node fd) ≠ [] := fun hnil => by
      rw [hnode, ← List.length_eq_zero_iff, hlength] at hnil
      have hmul := Nat.mul_pos hlenPos hsize
      omega
    obtain ⟨f', s', hrun, hspecific, hoff, hroom', _, hgrown⟩ := write_fat16_grows hv hspf hfile
      hlen hlenPos hpos (Nat.le_refl size) hroom buffer
    have haddr : ∀ p, m.chainAddr s'.disk f' p = m.chainAddr t.block.disk (t.file fd) p :=
      fun p => (chain_addr_of_specific hspecific p).trans (hfile.addr_eq hgrown.kept p)
    refine ⟨t.put fd f' s', store.put m.clusterSize fd (store.content (store.node fd)) buffer size,
      hput hoff hrun, ?_, ?_⟩
    · rw [Store.Wrote, if_neg (by omega)]
      exact ⟨_, fun _ => rfl, fun hnil => absurd hnil hne, rfl⟩
    · refine h.put (hoff ▸ Nat.mod_lt _ (by decide)) ((hfile.entries_kept hgrown.kept).of_specific
        hspecific) ((hcontent.own hfile hv.toSectors512 hgrown).of_specific hspecific)
        (fun p a ha => (haddr p).trans ha) hgrown.kept (fun i hi => ?_) (fun i hi => ?_)
        (fun x hfats hfree hx => ?_) ?_ rfl ?_ ?_
      · exact (h.content i).other (h.file i) hv.toSectors512 hgrown
          ((h.apart _ i (Ne.symm hi)).of_specific rfl rfl)
      · exact (chains_apart_kept hfile (h.file i) hgrown.kept
          ((h.apart _ i (Ne.symm hi)).of_specific rfl rfl)).of_specific hspecific rfl
      · exact hgrown.outside x hfats hfree fun j _ hj => hx _ ((haddr _).trans hj)
      · show m.Room hi s'.disk (store.free - store.needed m.clusterSize fd size)
        rw [hneeded]
        exact hroom'
      · rw [hoff]
        show Function.update store.offset fd ((store.offset fd + size) % 4294967296) = _
        rw [hoffset]
        rfl
      · show Function.update store.content (store.node fd) (overwrite _ (store.offset fd) _) = _
        rw [hoffset, hnode]
        rfl

/-- The file functions refine the store. -/
theorem file_table_refines (hv : m.Volume env hi) (hspf : 1 ≤ m.bpb.sectorsPerFat) :
    (FileTable.object env m).Refines (Store.contract m.clusterSize)
      fun (t : FileTable φ ν) store => t.Holds m hi disk₀ store := by
  intro call t store h hpre
  cases call with
  | read fd buffer size => exact refines_read hv h fd buffer size
  | write fd buffer size =>
      rcases Nat.eq_zero_or_pos size with rfl | hpos
      · -- nothing is written, and nothing changes
        have hsame : t.put fd (t.file fd) t.block = t := by
          simp only [FileTable.put, FileTable.file, Function.update_eq_self]
        exact ⟨⟨0, []⟩, t, store, congrArg (fun u => some (FileResult.mk 0 [], u)) hsame,
          ⟨rfl, by rw [Store.Wrote, if_pos rfl]⟩, h⟩
      · obtain ⟨t', store', hrun, hwrote, h'⟩ := refines_write hv hspf h fd buffer hpos
          (hpre.resolve_left (by omega))
        exact ⟨_, t', store', hrun, ⟨rfl, hwrote⟩, h'⟩
  | setOffset fd offset =>
      have hsmall : ∀ fd',
          Function.update t.offset fd (offset % 4294967296) fd' < 4294967296 := fun fd' => by
        rw [Function.update_apply]
        split_ifs
        · exact Nat.mod_lt _ (by decide)
        · exact h.small fd'
      refine ⟨⟨0, []⟩, _, store.seek fd offset, rfl, ⟨rfl, rfl⟩, ⟨hsmall, h.file, h.apart, h.room⟩,
        h.node, ?_, h.content, h.kept, h.rest⟩
      show Function.update t.offset fd _ = Function.update store.offset fd _
      rw [h.offset]

/-- A table of files holds a store, and over every list of calls that the contract allows it gives
the results that may come of them and goes on to hold the store that they leave. -/
theorem files_refine_store (hv : m.Volume env hi) (hspf : 1 ≤ m.bpb.sectorsPerFat)
    (h : t.FilesOk m hi free) :
    ∃ store : Store φ ν, store.free = free ∧ t.Holds m hi t.block.disk store ∧
      ∀ calls, (Store.contract m.clusterSize).Allows calls store →
        ∃ results t' store',
          Object.runCalls (FileTable.object env m) calls t = some (results, t') ∧
          (Store.contract m.clusterSize).Outcome calls store results store' ∧
          t'.Holds m hi t.block.disk store' := by
  obtain ⟨store, hfree, hholds⟩ := h.holds hv.clusterSize_pos
  exact ⟨store, hfree, hholds, fun calls hallows =>
    Contract.run_calls (file_table_refines hv hspf) hholds hallows⟩

/-! ## Reading back -/

/-- No write of a list of calls comes to the `n` bytes of a node from position `p` on. -/
def Store.Spares (cs : Nat) (i : ν) (p n : Nat) : List (FileCall φ) → Store φ ν → Prop
  | [], _ => True
  | call :: calls, t =>
      (∀ fd buffer size, call = .write fd buffer size → t.node fd = i →
        t.offset fd + size ≤ p ∨ p + n ≤ t.offset fd) ∧
      ∀ result t', (Store.contract cs).post call t result t' → Spares cs i p n calls t'

/-- A call changes no node of an open file, and no byte that it spares. -/
theorem store_call_spares {i : ν} {p n : Nat} {call : FileCall φ} {t t' : Store φ ν}
    {result : FileResult} (hn : 1 ≤ n) (hin : p + n ≤ (t.content i).length)
    (hspares : ∀ fd buffer size, call = .write fd buffer size → t.node fd = i →
      t.offset fd + size ≤ p ∨ p + n ≤ t.offset fd)
    (h : (Store.contract cs).post call t result t') :
    t'.node = t.node ∧ (t'.content i).length = (t.content i).length ∧
      ∀ j < n, (t'.content i)[p + j]? = (t.content i)[p + j]? := by
  cases call with
  | read fd buffer size =>
      obtain ⟨_, rfl⟩ := h
      exact ⟨rfl, rfl, fun _ _ => rfl⟩
  | setOffset fd offset =>
      obtain ⟨_, rfl⟩ := h
      exact ⟨rfl, rfl, fun _ _ => rfl⟩
  | write fd buffer size =>
      obtain ⟨_, hwrote⟩ := h
      rw [Store.Wrote] at hwrote
      split_ifs at hwrote with hsize
      · exact hwrote ▸ ⟨rfl, rfl, fun _ _ => rfl⟩
      · obtain ⟨base, hbase, _, rfl⟩ := hwrote
        refine ⟨rfl, ?_⟩
        show (Function.update t.content (t.node fd) _ i).length = _ ∧
          ∀ j < n, (Function.update t.content (t.node fd) _ i)[p + j]? = _
        by_cases hi : i = t.node fd
        · have hne : t.content i ≠ [] := fun hnil => by
            rw [hnil, List.length_nil] at hin
            omega
          rw [hi, Function.update_self, length_overwrite, hbase (hi ▸ hne)]
          refine ⟨rfl, fun j hj => ?_⟩
          rw [overwrite_get, length_bytes, if_neg]
          rcases hspares fd buffer size rfl hi.symm with hbefore | hbehind <;> omega
        · rw [Function.update_of_ne hi]
          exact ⟨rfl, fun _ _ => rfl⟩

/-- So do the calls of a list. -/
theorem store_calls_spare {i : ν} {p n : Nat} {calls : List (FileCall φ)} {t t' : Store φ ν}
    {results : List FileResult} (hn : 1 ≤ n) (hin : p + n ≤ (t.content i).length)
    (hspares : t.Spares cs i p n calls)
    (h : (Store.contract cs).Outcome calls t results t') :
    t'.node = t.node ∧ ∀ j < n, (t'.content i)[p + j]? = (t.content i)[p + j]? := by
  induction h with
  | nil => exact ⟨rfl, fun _ _ => rfl⟩
  | cons hpost _ ih =>
      obtain ⟨hnode, hlength, hbytes⟩ := store_call_spares hn hin hspares.1 hpost
      obtain ⟨hnode', hbytes'⟩ := ih (hlength ▸ hin) (hspares.2 _ _ hpost)
      exact ⟨hnode'.trans hnode, fun j hj => (hbytes' j hj).trans (hbytes j hj)⟩

/-- What comes of a read of bytes that are in a store. -/
theorem store_read_bytes {fd : φ} {p n : Nat} {buffer buffer' : ByteMem}
    {results : List FileResult} (hp : p < 4294967296)
    (hbytes : ∀ j < n, (store.content (store.node fd))[p + j]? = some (buffer j))
    (h : (Store.contract cs).Outcome [.setOffset fd p, .read fd buffer' n] store results store') :
    results = [⟨0, []⟩, ⟨n, bufferBytes buffer n⟩] := by
  have hslice : ((store.content (store.node fd)).drop p).take n = bufferBytes buffer n := by
    refine List.ext_getElem? fun j => ?_
    by_cases hj : j < n
    · rw [List.getElem?_take_of_lt hj, List.getElem?_drop, hbytes j hj, get_bytes buffer hj]
    · rw [List.getElem?_eq_none (by rw [List.length_take]; omega),
        List.getElem?_eq_none (by rw [length_bytes]; omega)]
  have hoffset : (store.seek fd p).offset fd = p := by
    show Function.update store.offset fd (p % 4294967296) fd = p
    rw [Function.update_self, Nat.mod_eq_of_lt hp]
  cases h with
  | cons hset hrest =>
      obtain ⟨rfl, rfl⟩ := hset
      cases hrest with
      | cons hread hnil =>
          obtain ⟨rfl, rfl⟩ := hread
          cases hnil
          rw [hoffset, show (store.seek fd p).content ((store.seek fd p).node fd) =
            store.content (store.node fd) from rfl, hslice, length_bytes]

/-- What is written into a file is read back through every open file of its node, whatever calls
come in between, as long as none of them writes to these bytes. -/
theorem written_read_back (hv : m.Volume env hi) (hspf : 1 ≤ m.bpb.sectorsPerFat)
    (h : t.Holds m hi disk₀ store) {fd fd' : φ} (hnode : t.node fd' = t.node fd)
    {buffer : ByteMem} {n : Nat} (hn : 1 ≤ n)
    (hin : t.offset fd + n ≤ (store.content (t.node fd)).length) {calls : List (FileCall φ)}
    (hallows : (Store.contract m.clusterSize).Allows (.write fd buffer n :: calls) store)
    (hspares : ∀ result store₁,
      (Store.contract m.clusterSize).post (.write fd buffer n) store result store₁ →
      store₁.Spares m.clusterSize (t.node fd) (t.offset fd) n calls) (buffer' : ByteMem) :
    ∃ results t', Object.runCalls (FileTable.object env m)
        (.write fd buffer n :: (calls ++ [.setOffset fd' (t.offset fd), .read fd' buffer' n])) t =
      some (results ++ [⟨0, []⟩, ⟨n, bufferBytes buffer n⟩], t') := by
  have hall : (Store.contract m.clusterSize).Allows
      (.write fd buffer n :: (calls ++ [.setOffset fd' (t.offset fd), .read fd' buffer' n]))
      store :=
    Contract.allows_append hallows fun _ _ _ => by
      exact ⟨trivial, fun _ _ _ => ⟨trivial, fun _ _ _ => trivial⟩⟩
  obtain ⟨results, t', store', hrun, hout, _⟩ :=
    Contract.run_calls (file_table_refines hv hspf) h hall
  cases hout with
  | cons hwrite hrest =>
      obtain ⟨first, store₂, last, hfirst, hlast, rfl⟩ := Contract.outcome_append hrest
      have hspares := hspares _ _ hwrite
      have hsame : store.node = t.node ∧ store.offset fd = t.offset fd :=
        ⟨h.node.symm, congrFun h.offset.symm fd⟩
      obtain ⟨rfl, hwrote⟩ := hwrite
      rw [Store.Wrote, if_neg (by omega), hsame.1] at hwrote
      obtain ⟨base, hbase, _, rfl⟩ := hwrote
      obtain rfl := hbase fun hnil => by
        rw [hnil, List.length_nil] at hin
        omega
      -- the bytes are in the store behind the write, and the calls in between spare them
      have hcontent : (store.put m.clusterSize fd (store.content (t.node fd)) buffer n).content
          (t.node fd) =
            overwrite (store.content (t.node fd)) (t.offset fd) (bufferBytes buffer n) := by
        show Function.update store.content (store.node fd) _ (t.node fd) = _
        rw [hsame.1, Function.update_self, hsame.2]
      obtain ⟨hnode', hbytes⟩ := store_calls_spare hn
        (by rw [hcontent, length_overwrite]; exact hin) hspares hfirst
      have hfd' : store₂.node fd' = t.node fd := by
        rw [hnode', ← hnode, ← hsame.1]
        rfl
      have hstored : ∀ j < n, (store₂.content (store₂.node fd'))[t.offset fd + j]? =
          some (buffer j) := fun j hj => by
        rw [hfd', hbytes j hj, hcontent, overwrite_get, length_bytes,
          if_pos ⟨by omega, by omega, by omega⟩, Nat.add_sub_cancel_left, get_bytes buffer hj]
      obtain rfl := store_read_bytes (h.small fd) hstored hlast
      exact ⟨_ :: first, t', hrun⟩

end

theorem small_file_ok : smallMount.FileOk 10 nearlyFullDisk.disk smallFile := by
  have hfirst : smallMount.cluster nearlyFullDisk.disk smallFile 0 = some 2 := rfl
  have hlast : smallMount.cluster nearlyFullDisk.disk smallFile 1 = none := by decide +kernel
  have hchain : smallMount.ChainOk 10 nearlyFullDisk.disk smallFile :=
    chain_ok_single hfirst hlast ⟨by decide, by decide, by decide, by decide⟩
  refine ⟨hchain, fun k c hc => ?_, 1, Chain.has_length_of_none (fun k hk => ?_) hlast⟩
  · cases k with
    | zero =>
        obtain rfl : 2 = c := Option.some.inj (hfirst.symm.trans hc)
        decide +kernel
    | succ k =>
        rw [Fat16Mount.cluster, Chain.nth_none_of_le hlast (by omega)] at hc
        cases hc
  · obtain rfl : k = 0 := by omega
    exact Option.isSome_of_eq_some hfirst

/-- A file of one cluster and an empty one on the small disk. -/
def twoFiles : FileTable Bool Bool :=
  ⟨id, fun _ => 0, fun i => if i then ⟨0xffff, 0, 0⟩ else ⟨2, 512, 0⟩, nearlyFullDisk⟩

theorem two_files_ok : twoFiles.FilesOk smallMount 10 1 := by
  have hnone : ∀ k, smallMount.cluster twoFiles.block.disk (twoFiles.nodeFile true) k = none :=
    fun k => Chain.nth_none _ k
  have hempty : smallMount.FileOk 10 twoFiles.block.disk (twoFiles.nodeFile true) := by
    refine ⟨fun k c hc => ?_, fun k c hc => ?_, 0,
      Chain.has_length_of_none (fun k hk => absurd hk (Nat.not_lt_zero k)) rfl⟩
    · rw [hnone k] at hc
      cases hc
    · rw [hnone k] at hc
      cases hc
  refine ⟨fun _ => (by decide : 0 < 4294967296), fun i => ?_, fun i j hij k l c hc hd => ?_,
    small_room⟩
  · cases i with
    | false => exact small_file_ok.of_specific rfl
    | true => exact hempty
  · cases i with
    | true =>
        rw [hnone k] at hc
        cases hc
    | false =>
        cases j with
        | false => exact hij rfl
        | true =>
            rw [hnone l] at hd
            cases hd

/-- The empty file takes the free cluster, and both files are read. -/
def twoFilesCalls : List (FileCall Bool) :=
  [.write true (fun _ => 0x41) 2, .read false (fun _ => 0x00) 512, .setOffset true 0,
    .read true (fun _ => 0x00) 2]

/-- These calls on the two files are calls on a store. -/
theorem two_files_refine : ∃ store : Store Bool Bool, store.free = 1 ∧
    twoFiles.Holds smallMount 10 twoFiles.block.disk store ∧ ∃ results t' store',
      Object.runCalls (FileTable.object smallEnv smallMount) twoFilesCalls twoFiles =
        some (results, t') ∧
      (Store.contract smallMount.clusterSize).Outcome twoFilesCalls store results store' ∧
      t'.Holds smallMount 10 twoFiles.block.disk store' := by
  obtain ⟨store, hfree, hholds, hrun⟩ :=
    files_refine_store small_mounted small_accepted.sectors.1 two_files_ok
  have hneed : store.needed smallMount.clusterSize true 2 ≤ store.free := by
    rw [Store.needed, ← hholds.offset, hfree, show smallMount.clusterSize = 512 from rfl]
    show (0 + 2 - 1) / 512 + 1 - _ ≤ 1
    omega
  exact ⟨store, hfree, hholds, hrun twoFilesCalls ⟨Or.inr hneed, fun _ _ _ =>
    ⟨trivial, fun _ _ _ => ⟨trivial, fun _ _ _ => ⟨trivial, fun _ _ _ => trivial⟩⟩⟩⟩⟩

/-- A file of one cluster, open twice. -/
def smallTable : FileTable Bool Unit :=
  ⟨fun _ => (), fun fd => if fd then 510 else 0, fun _ => ⟨2, 512, 0⟩, nearlyFullDisk⟩

theorem small_files_ok : smallTable.FilesOk smallMount 10 1 :=
  ⟨fun fd => by cases fd <;> decide, fun _ => small_file_ok.of_specific rfl,
    fun _ _ hij => absurd rfl hij, small_room⟩

/-- The last two bytes of the file are written through one open file and read through the other. -/
theorem small_written_read_back : ∃ results, ∃ t' : FileTable Bool Unit,
    Object.runCalls (FileTable.object smallEnv smallMount)
        (.write true (fun _ => 0x41) 2 :: ([.read false (fun _ => 0x00) 1] ++
          [.setOffset false 510, .read false (fun _ => 0x00) 2])) smallTable =
      some (results ++ [⟨0, []⟩, ⟨2, bufferBytes (fun _ => 0x41) 2⟩], t') := by
  obtain ⟨store, hfree, hholds⟩ := small_files_ok.holds (by decide)
  have hoffset : store.offset true = 510 := congrFun hholds.offset.symm true
  have hlength : 512 ≤ (store.content ()).length := by
    obtain ⟨len, hlen, hlength⟩ := (hholds.content ()).length
    have hpos : ((0 : Nat) : ℕ∞) < (len : Nat) := (hlen 0).mp rfl
    have hpos : 0 < len := by exact_mod_cast hpos
    rw [hlength, show smallMount.clusterSize = 512 from rfl]
    omega
  have hneed : store.needed smallMount.clusterSize true 2 ≤ store.free := by
    rw [Store.needed, hoffset, hfree, show smallMount.clusterSize = 512 from rfl]
    omega
  have hallows : (Store.contract smallMount.clusterSize).Allows
      [.write true (fun _ => 0x41) 2, .read false (fun _ => 0x00) 1] store :=
    ⟨Or.inr hneed, fun _ _ _ => ⟨trivial, fun _ _ _ => trivial⟩⟩
  exact written_read_back small_mounted small_accepted.sectors.1 hholds
    (show smallTable.node false = smallTable.node true from rfl) (by omega) hlength hallows
    (fun _ _ _ => ⟨fun _ _ _ h => (nomatch h), fun _ _ _ => trivial⟩) _

end Genesis32
