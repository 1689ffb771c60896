import Genesis32.Tools.Fat12Packing

/-!
# What the reader of FAT12 images prints

`tools/fat.c` with the bytes of its last buffer and with everything that it prints, over the loads
of `Fat12Image`. A `Volume` is what an image is for: a header, the values of the allocation table
and the files of the root directory, each with its clusters and its bytes. `Volume.OnImage` says
that an image holds a volume in the layout of FAT12, and `fat_main_prints` that on such an image the
program prints the file that the volume has under the name, or that there is none, whatever the
buffers held before.
-/

namespace Genesis32

open Word

/-! ## The program -/

/-- A piece of what the program prints. -/
inductive Output where
  | stdout (text : List Char)
  | stderr (text : List Char)
  deriving DecidableEq, Repr

/-- `isprint`, in the locale of the C standard. -/
def isPrint (b : UInt8) : Bool := 0x20 ≤ b && b ≤ 0x7e

/-- A digit of `%x`. -/
def hexChar (d : Nat) : Char := if d < 10 then Char.ofNat (48 + d) else Char.ofNat (87 + d)

/-- The body of the `for` of `read_file`. -/
def printByte (b : UInt8) : Output :=
  if isPrint b then .stderr [Char.ofUInt8 b]
  else .stdout ['<', hexChar (b.toNat / 16), hexChar (b.toNat % 16), '>']

/-- The `for` of `read_file`. -/
def printBytes (bufOut : ByteMem) (size : Nat) : List Output :=
  (List.range size).map fun i => printByte (bufOut i)

/-- The `do` loop of `read_file` with the bytes that it stores: what is in memory from `buf_out` on,
and whether the loop comes to the end of the chain. -/
def loadClusters (h : BiosHeader) (image : Image) (fat : ByteMem) :
    Nat → Nat → Nat → ByteMem → Option (ByteMem × Bool)
  | 0, _, _, _ => none
  | fuel + 1, currCluster, startLoc, bufOut =>
      let lba := clusterLba h currCluster
      let r := readSector h image lba h.sectorPerCluster
      let bufOut := bufOut.copy startLoc image.bytes (sectorPos h lba) r.1
      if r.2 = false then some (bufOut, false)
      else if nextCluster fat currCluster < 0xff8 then
        loadClusters h image fat fuel (nextCluster fat currCluster) (startLoc + clusterBytes h)
          bufOut
      else some (bufOut, true)

/-- `read_file`: what it prints, and its result. -/
def printFile (env : HostEnv) (staleOut : ByteMem) (h : BiosHeader) (image : Image)
    (fat dir fileName : ByteMem) (fuel : Nat) : Option (List Output × Bool) :=
  match searchRoot h dir fileName with
  | none => some ([], false)
  | some index =>
      if env.outGranted then
        (loadClusters h image fat fuel (entryCluster dir index) 0 staleOut).map fun r =>
          if r.2 then (printBytes r.1 (entrySize dir index), true) else ([], false)
      else some ([], false)

/-- An argument of the program in memory: its bytes, the zero behind them, and what follows. -/
def argBytes (arg : List UInt8) (behind : ByteMem) : ByteMem :=
  fun i => if i < arg.length then arg.getD i 0x00 else if i = arg.length then 0x00 else behind i

/-- A string as `%s` prints it. -/
def argText (arg : List UInt8) : List Char := arg.map Char.ofUInt8

/-- `main` once the image is open: what it prints, and the exit code. -/
def printImage (env : HostEnv) (staleOut behind : ByteMem) (image : Image) (target : List UInt8)
    (fuel : Nat) : Option (List Output × Int) :=
  match readBootHeader image with
  | none => some ([.stderr "failed to read boot header\n".toList], -3)
  | some h =>
      if (readFat env h image).ok = false then
        some ([.stderr "failed to read fat tables\n".toList], -4)
      else if (readRootDir env h image).ok = false then
        some ([.stderr "failed to read from root\n".toList], -5)
      else if searchRoot h (rootBytes env h image) (argBytes target behind) = none then
        some ([.stderr ("could not find ".toList ++ argText target ++ " from root\n".toList)], -6)
      else
        (printFile env staleOut h image (fatBytes env h image) (rootBytes env h image)
          (argBytes target behind) fuel).map fun r =>
            if r.2 then (r.1, 0) else (r.1 ++ [.stderr "failed to read file.\n".toList], -7)

/-- `main`. The image is what `fopen` opens under the second argument. -/
def fatMain (env : HostEnv) (staleOut behind : ByteMem) (argv : List (List UInt8))
    (fopen : List UInt8 → Option Image) (fuel : Nat) : Option (List Output × Int) :=
  match argv with
  | _ :: disk :: target :: _ =>
      match fopen disk with
      | none => some ([.stderr "failed to open disk\n".toList], -2)
      | some image => printImage env staleOut behind image target fuel
  | _ =>
      some ([.stdout ("usage ".toList ++ argText (argv.headD []) ++
        " <filename> <targetfile>".toList)], -1)

/-! ## Volumes -/

/-- A file of a volume: the name of its directory entry, the clusters that hold it, in order, and
its bytes. -/
structure VolumeFile where
  name : List UInt8
  clusters : List (BitVec 12)
  content : List UInt8

/-- The clusters are a chain of the table up to a value that ends it. -/
def Linked (table : List (BitVec 12)) : List (BitVec 12) → Prop
  | [] => False
  | [c] => ∃ mark : BitVec 12, table[c.toNat]? = some mark ∧ 0xff8 ≤ mark.toNat
  | c :: d :: rest => table[c.toNat]? = some d ∧ d.toNat < 0xff8 ∧ Linked table (d :: rest)

/-- What a file must be like: a name of eleven bytes, and as many clusters as its bytes need, in the
chain that its first cluster begins. -/
structure VolumeFile.WellFormed (f : VolumeFile) (h : BiosHeader) (table : List (BitVec 12)) :
    Prop where
  name_length : f.name.length = 11
  name_used : f.name[0]? ≠ some 0x00
  linked : Linked table f.clusters
  data : ∀ c ∈ f.clusters, 2 ≤ c.toNat
  filled : f.clusters.length = (f.content.length + clusterBytes h - 1) / clusterBytes h
  size_lt : f.content.length + clusterBytes h < 4294967296

/-- A volume whose root directory fills its sectors. Its files have clusters, so none of them is
empty. -/
structure Volume where
  header : BiosHeader
  table : List (BitVec 12)
  files : List VolumeFile
  sectors : header.bytesPerSector ≠ 0
  clusters : header.sectorPerCluster ≠ 0
  full_root : header.bytesPerSector ∣ 32 * header.rootEntries
  room : files.length ≤ header.rootEntries
  well_formed : ∀ f ∈ files, f.WellFormed header table

/-- The first file under a name. -/
def Volume.lookup (v : Volume) (name : List UInt8) : Option VolumeFile :=
  v.files.find? fun f => f.name = name

/-- Where the FATs, the root directory and a cluster begin. -/
def fatPos (h : BiosHeader) : Nat := h.reservedSector * h.bytesPerSector

def rootPos (h : BiosHeader) : Nat := rootLba h * h.bytesPerSector

def dataPos (h : BiosHeader) (cluster : Nat) : Nat :=
  (rootLba h + dirSize h + (cluster - 2) * h.sectorPerCluster) * h.bytesPerSector

/-- Entry `i` of a directory is the one of a file. -/
structure EntryAt (dir : ByteMem) (i : Nat) (f : VolumeFile) : Prop where
  name : ∀ j < 11, some (dir (32 * i + j)) = f.name[j]?
  first : some (entryCluster dir i) = f.clusters.head?.map BitVec.toNat
  size : entrySize dir i = f.content.length

/-- An image holds a volume: the header, the table in 12 bits for a value, the entries of the root
directory with a free one behind them, and the clusters of the files. -/
structure Volume.OnImage (v : Volume) (image : Image) : Prop where
  header : readBootHeader image = some v.header
  length_lt : image.length < 4294967296
  table : ∃ spare, StartsWith (image.bytes.view (fatPos v.header)) (packFat12 spare v.table) ∧
    (packFat12 spare v.table).length ≤ fatSectors v.header * v.header.bytesPerSector
  root_inside : (rootLba v.header + dirSize v.header) * v.header.bytesPerSector ≤ image.length
  entries : ∀ i f, v.files[i]? = some f → EntryAt (image.bytes.view (rootPos v.header)) i f
  free_entry : v.files.length < v.header.rootEntries →
    image.bytes (rootPos v.header + 32 * v.files.length) = 0x00
  inside : ∀ f ∈ v.files, ∀ c ∈ f.clusters,
    dataPos v.header c.toNat + clusterBytes v.header ≤ image.length
  data : ∀ f ∈ v.files, ∀ j c, f.clusters[j]? = some c → ∀ i < clusterBytes v.header,
    ∀ b, f.content[j * clusterBytes v.header + i]? = some b →
      image.bytes (dataPos v.header c.toNat + i) = b

/-! ## The loads -/

variable {h : BiosHeader} {image : Image} {env : HostEnv} {v : Volume} {f : VolumeFile}
  {fat dir name : ByteMem} {key : List UInt8} {table : List (BitVec 12)}

/-- A read that the image has whole. -/
theorem read_sector_whole {lba count : Nat} (hbytes : h.bytesPerSector ≠ 0)
    (hin : sectorPos h lba + h.bytesPerSector * count ≤ image.length) :
    readSector h image lba count = (h.bytesPerSector * count, true) := by
  have hfull : min (h.bytesPerSector * count) (image.length - sectorPos h lba) =
      h.bytesPerSector * count := by omega
  simp only [readSector, hfull, Nat.mul_div_cancel_left _ (Nat.pos_of_ne_zero hbytes),
    decide_true]

/-- A position that is inside an image is not reduced. -/
theorem sector_pos_of_lt {lba : Nat} (hlt : lba * h.bytesPerSector < 4294967296) :
    sectorPos h lba = lba * h.bytesPerSector :=
  mul32_of_lt hlt

/-- The FATs, the root directory and what is behind them, in the order of the image. -/
theorem fat_pos_add (h : BiosHeader) :
    fatPos h + h.bytesPerSector * fatSectors h = rootPos h := by
  rw [fatPos, rootPos, rootLba, Nat.add_mul, Nat.mul_comm h.bytesPerSector]

theorem root_pos_add (h : BiosHeader) :
    rootPos h + h.bytesPerSector * dirSize h = (rootLba h + dirSize h) * h.bytesPerSector := by
  rw [rootPos, Nat.add_mul, Nat.mul_comm h.bytesPerSector]

theorem Volume.OnImage.root_le (hv : v.OnImage image) :
    rootPos v.header + v.header.bytesPerSector * dirSize v.header ≤ image.length := by
  rw [root_pos_add]
  exact hv.root_inside

/-- The whole of the FATs is read. -/
theorem Volume.OnImage.fat_read (hv : v.OnImage image) :
    sectorPos v.header v.header.reservedSector = fatPos v.header ∧
      readSector v.header image v.header.reservedSector (fatSectors v.header) =
        (v.header.bytesPerSector * fatSectors v.header, true) := by
  have hroot := hv.root_le
  have hfat := fat_pos_add v.header
  have hlength := hv.length_lt
  have hpos : sectorPos v.header v.header.reservedSector = fatPos v.header :=
    sector_pos_of_lt (by rw [← fatPos]; omega)
  refine ⟨hpos, read_sector_whole v.sectors ?_⟩
  omega

/-- The whole of the root directory is read. -/
theorem Volume.OnImage.root_read (hv : v.OnImage image) :
    sectorPos v.header (rootLba v.header) = rootPos v.header ∧
      readSector v.header image (rootLba v.header) (dirSize v.header) =
        (v.header.bytesPerSector * dirSize v.header, true) := by
  have hroot := hv.root_le
  have hlength := hv.length_lt
  have hpos : sectorPos v.header (rootLba v.header) = rootPos v.header :=
    sector_pos_of_lt (by rw [← rootPos]; omega)
  refine ⟨hpos, read_sector_whole v.sectors ?_⟩
  omega

/-- `g_fat` begins with the table. -/
theorem Volume.OnImage.fat_bytes (hv : v.OnImage image) (env : HostEnv) :
    ∃ spare, StartsWith (fatBytes env v.header image) (packFat12 spare v.table) := by
  obtain ⟨spare, hstarts, hroom⟩ := hv.table
  obtain ⟨hpos, hread⟩ := hv.fat_read
  refine ⟨spare, fun j hj => ?_⟩
  have hstored : j < v.header.bytesPerSector * fatSectors v.header := by
    rw [Nat.mul_comm]
    omega
  rw [fatBytes, sectorBytes, hread, if_pos hstored, hpos]
  exact hstarts j hj

/-- `root_dir_entry` holds the root directory. -/
theorem Volume.OnImage.root_bytes (hv : v.OnImage image) (env : HostEnv) {x : Nat}
    (hx : x < v.header.bytesPerSector * dirSize v.header) :
    rootBytes env v.header image x = image.bytes.view (rootPos v.header) x := by
  obtain ⟨hpos, hread⟩ := hv.root_read
  rw [rootBytes, sectorBytes, hread, if_pos hx, hpos, ByteMem.view_apply]

/-- The root directory has room for its entries. -/
theorem entries_le_dir (hbytes : h.bytesPerSector ≠ 0) :
    32 * h.rootEntries ≤ h.bytesPerSector * dirSize h := by
  have hpos := Nat.pos_of_ne_zero hbytes
  have hup := Nat.div_add_mod (32 * h.rootEntries + h.bytesPerSector - 1) h.bytesPerSector
  have hmod := Nat.mod_lt (32 * h.rootEntries + h.bytesPerSector - 1) hpos
  rw [dirSize]
  omega

/-- An entry depends on its 32 bytes only. -/
theorem EntryAt.congr {dir' : ByteMem} {i : Nat} (hentry : EntryAt dir i f)
    (hsame : ∀ x < 32, dir' (32 * i + x) = dir (32 * i + x)) : EntryAt dir' i f where
  name := fun j hj => by
    rw [hsame j (by omega)]
    exact hentry.name j hj
  first := by
    have hword : entryCluster dir' i = entryCluster dir i :=
      ByteMem.word16_congr (hsame 26 (by omega)) (hsame 27 (by omega))
    rw [hword]
    exact hentry.first
  size := by
    have hword : entrySize dir' i = entrySize dir i :=
      ByteMem.word32_congr fun x hl hh => by
        have hbyte := hsame (x - 32 * i) (by omega)
        rwa [show 32 * i + (x - 32 * i) = x by omega] at hbyte
    rw [hword]
    exact hentry.size

theorem Volume.OnImage.loaded_entry (hv : v.OnImage image) (env : HostEnv) {i : Nat}
    (hf : v.files[i]? = some f) : EntryAt (rootBytes env v.header image) i f := by
  have hlt : i < v.files.length := (List.getElem?_eq_some_iff.mp hf).1
  have hroom := v.room
  have hdir := entries_le_dir v.sectors
  exact (hv.entries i f hf).congr fun x hx => hv.root_bytes env (by omega)

/-! ## The search -/

/-- Eleven bytes are the name of an entry exactly when they are the name of its file. -/
theorem EntryAt.name_iff {i : Nat} (hentry : EntryAt dir i f) (hlength : f.name.length = 11)
    (hkey : key.length = 11) (hname : ∀ j < 11, some (name j) = key[j]?) :
    (∀ j < 11, name j = dir (32 * i + j)) ↔ f.name = key := by
  constructor
  · intro hsame
    refine List.ext_getElem? fun j => ?_
    rcases Nat.lt_or_ge j 11 with hj | hj
    · rw [← hentry.name j hj, ← hname j hj, hsame j hj]
    · rw [List.getElem?_eq_none (by omega), List.getElem?_eq_none (by omega)]
  · rintro rfl j hj
    exact Option.some.inj ((hname j hj).trans (hentry.name j hj).symm)

/-- From an entry on, the search finds the first file under the name. -/
theorem search_entries_lookup {files : List VolumeFile}
    (hentries : ∀ i f, files[i]? = some f → EntryAt dir i f)
    (hused : ∀ f ∈ files, f.name.length = 11 ∧ f.name[0]? ≠ some 0x00)
    (hkey : key.length = 11) (hname : ∀ j < 11, some (name j) = key[j]?) :
    ∀ k i, i ≤ files.length → files.length ≤ i + k →
      (files.length < i + k → dir (32 * files.length) = 0x00) →
      match (files.drop i).find? fun f => f.name = key with
      | none => searchEntries dir name k i = none
      | some f => ∃ index, searchEntries dir name k i = some index ∧ files[index]? = some f := by
  intro k
  induction k with
  | zero =>
      intro i _ hall _
      rw [List.drop_eq_nil_of_le (by omega), List.find?_nil]
      rfl
  | succ k ih =>
      intro i hi hall hfree
      rcases Nat.lt_or_ge i files.length with hlt | hge
      · have hget : files[i]? = some files[i] := List.getElem?_eq_getElem hlt
        have hentry := hentries i files[i] hget
        obtain ⟨hlength, hfirst⟩ := hused files[i] (List.getElem_mem hlt)
        have hbyte : dir (32 * i) ≠ 0x00 := by
          intro hzero
          have hat := hentry.name 0 (by omega)
          rw [Nat.add_zero, hzero] at hat
          exact hfirst hat.symm
        rw [List.drop_eq_getElem_cons hlt, List.find?_cons, searchEntries, if_neg hbyte]
        by_cases hmatch : files[i].name = key
        · rw [if_pos ((hentry.name_iff hlength hkey hname).mpr hmatch)]
          simp only [hmatch, decide_true]
          exact ⟨i, rfl, hget⟩
        · rw [if_neg fun hsame => hmatch ((hentry.name_iff hlength hkey hname).mp hsame)]
          simp only [hmatch, decide_false]
          exact ih (i + 1) hlt (by omega) fun hmore => hfree (by omega)
      · obtain rfl : i = files.length := by omega
        rw [List.drop_length, List.find?_nil]
        exact if_pos (hfree (by omega))

/-- The bytes that are compared with a name. -/
theorem arg_bytes_name {target : List UInt8} (behind : ByteMem) (hlength : 11 ≤ target.length) :
    ∀ j < 11, some (argBytes target behind j) = (target.take 11)[j]? := by
  intro j hj
  rw [argBytes, if_pos (by omega), List.getElem?_take_of_lt hj, List.getD_eq_getElem?_getD,
    List.getElem?_eq_getElem (by omega), Option.getD_some]

/-- `search_root` finds the file that the volume has under the name. -/
theorem Volume.OnImage.search_root (hv : v.OnImage image) (env : HostEnv) {target : List UInt8}
    (behind : ByteMem) (hlength : 11 ≤ target.length) :
    match v.lookup (target.take 11) with
    | none => searchRoot v.header (rootBytes env v.header image) (argBytes target behind) = none
    | some f => ∃ index,
        searchRoot v.header (rootBytes env v.header image) (argBytes target behind) =
          some index ∧ v.files[index]? = some f := by
  have hroom := v.room
  have hdir := entries_le_dir v.sectors
  have hsearch := search_entries_lookup (fun i f hf => hv.loaded_entry env hf)
    (fun f hf => ⟨(v.well_formed f hf).name_length, (v.well_formed f hf).name_used⟩)
    (List.length_take_of_le hlength) (arg_bytes_name behind hlength) v.header.rootEntries 0
    (Nat.zero_le _) (by omega) fun hfree => by
      rw [hv.root_bytes env (by omega), ByteMem.view_apply]
      exact hv.free_entry (by omega)
  rwa [List.drop_zero] at hsearch

/-! ## The chain of a file -/

/-- `next_cluster` at a cluster reads the value of the table. -/
theorem next_cluster_table {spare : BitVec 12} (hfat : StartsWith fat (packFat12 spare table))
    {c mark : BitVec 12} (hmark : table[c.toNat]? = some mark) :
    nextCluster fat c.toNat = mark.toNat := by
  have hc := c.isLt
  obtain ⟨hlt, hget⟩ := List.getElem?_eq_some_iff.mp hmark
  obtain ⟨k, hk | hk⟩ := Nat.even_or_odd' c.toNat
  · have hpair := next_cluster_pair (starts_with_pair k table fat hfat (by omega))
    have hview := (next_cluster_view fat (k := k) (by omega)).1
    have hvalue : table[2 * k] = mark := by
      rw [← hget]
      congr 1
      exact hk.symm
    rw [hk, hview, hpair.1, hvalue]
  · have hpair := next_cluster_pair (starts_with_pair k table fat hfat (by omega))
    have hview := (next_cluster_view fat (k := k) (by omega)).2
    rw [hk, hview, hpair.2, ← hk, List.getD_eq_getElem?_getD, hmark, Option.getD_some]

/-- A chain of the table is the chain of the clusters: behind them is a value that ends it. -/
theorem linked_chain_ends {spare : BitVec 12} (hfat : StartsWith fat (packFat12 spare table)) :
    ∀ (rest : List (BitVec 12)) (c : BitVec 12), Linked table (c :: rest) →
      0xff8 ≤ chainCluster fat c.toNat (rest.length + 1) := by
  intro rest
  induction rest with
  | nil =>
      intro c hlinked
      obtain ⟨mark, hmark, hend⟩ := hlinked
      have hnext : chainCluster fat c.toNat 1 = nextCluster fat c.toNat := rfl
      rw [List.length_nil, Nat.zero_add, hnext, next_cluster_table hfat hmark]
      exact hend
  | cons d rest ih =>
      intro c hlinked
      obtain ⟨hmark, _, hrest⟩ := hlinked
      rw [List.length_cons, chain_cluster_succ, next_cluster_table hfat hmark]
      exact ih d hrest

/-- The position of a cluster that is inside an image is computed without a reduction. -/
theorem data_pos_eq {c : Nat} (hc : 2 ≤ c) (hbytes : h.bytesPerSector ≠ 0)
    (hlt : dataPos h c < 4294967296) : sectorPos h (clusterLba h c) = dataPos h c := by
  have hlba : rootLba h + dirSize h + (c - 2) * h.sectorPerCluster < 4294967296 :=
    Nat.lt_of_le_of_lt (Nat.le_mul_of_pos_right _ (Nat.pos_of_ne_zero hbytes)) hlt
  have hcluster : clusterLba h c = rootLba h + dirSize h + (c - 2) * h.sectorPerCluster := by
    obtain ⟨k, rfl⟩ := Nat.exists_eq_add_of_le hc
    rw [Nat.add_sub_cancel_left] at hlba ⊢
    have hsum : ((h.reservedSector : Int) + fatSectors h + dirSize h +
        (((2 + k : Nat) : Int) - 2) * h.sectorPerCluster) =
        ((rootLba h + dirSize h + k * h.sectorPerCluster : Nat) : Int) := by
      rw [rootLba]
      push_cast
      ring
    rw [clusterLba, hsum]
    omega
  rw [hcluster, sector_pos_of_lt hlt, dataPos]

/-- The whole of a cluster that is inside an image is read. -/
theorem read_cluster_whole (hbytes : h.bytesPerSector ≠ 0) (hlength : image.length < 4294967296)
    {c : Nat} (hc : 2 ≤ c) (hin : dataPos h c + clusterBytes h ≤ image.length) :
    sectorPos h (clusterLba h c) = dataPos h c ∧
      readSector h image (clusterLba h c) h.sectorPerCluster = (clusterBytes h, true) := by
  have hpos := data_pos_eq hc hbytes (by omega)
  refine ⟨hpos, ?_⟩
  rw [clusterBytes, Nat.mul_comm] at hin ⊢
  exact read_sector_whole hbytes (by rw [hpos]; exact hin)

/-- The loop stores the clusters of a chain one behind the other, from its place in the buffer on,
and leaves what is before it. -/
theorem load_clusters_chain {spare : BitVec 12} (hbytes : h.bytesPerSector ≠ 0)
    (hlength : image.length < 4294967296) (hfat : StartsWith fat (packFat12 spare table)) :
    ∀ (rest : List (BitVec 12)) (c : BitVec 12) (fuel startLoc : Nat) (bufOut : ByteMem),
      Linked table (c :: rest) →
      (∀ d ∈ c :: rest, 2 ≤ d.toNat ∧ dataPos h d.toNat + clusterBytes h ≤ image.length) →
      rest.length < fuel →
      ∃ bufOut', loadClusters h image fat fuel c.toNat startLoc bufOut = some (bufOut', true) ∧
        (∀ j d, (c :: rest)[j]? = some d → ∀ i < clusterBytes h,
          bufOut' (startLoc + (j * clusterBytes h + i)) = image.bytes (dataPos h d.toNat + i)) ∧
        ∀ x < startLoc, bufOut' x = bufOut x := by
  intro rest
  induction rest with
  | nil =>
      intro c fuel startLoc bufOut hlinked hin hfuel
      obtain ⟨fuel, rfl⟩ := Nat.exists_eq_add_of_lt hfuel
      obtain ⟨hc, hinside⟩ := hin c (List.mem_singleton_self c)
      obtain ⟨mark, hmark, hend⟩ := hlinked
      obtain ⟨hpos, hread⟩ := read_cluster_whole hbytes hlength hc hinside
      refine ⟨bufOut.copy startLoc image.bytes (dataPos h c.toNat) (clusterBytes h), ?_, ?_, ?_⟩
      · rw [loadClusters, hread, hpos, next_cluster_table hfat hmark]
        rw [if_neg Bool.true_eq_false_eq_False, if_neg (Nat.not_lt.mpr hend)]
      · intro j d hd i hi
        obtain ⟨hj, rfl⟩ := List.getElem?_eq_some_iff.mp hd
        obtain rfl : j = 0 := Nat.lt_one_iff.mp hj
        rw [Nat.zero_mul, Nat.zero_add, ByteMem.copy_inside (by omega) (by omega),
          Nat.add_sub_cancel_left]
        rfl
      · exact fun x hx => ByteMem.copy_outside (Or.inl hx)
  | cons d rest ih =>
      intro c fuel startLoc bufOut hlinked hin hfuel
      obtain ⟨fuel, rfl⟩ := Nat.exists_eq_add_of_lt hfuel
      obtain ⟨hc, hinside⟩ := hin c List.mem_cons_self
      obtain ⟨hmark, hnext, hrest⟩ := hlinked
      obtain ⟨hpos, hread⟩ := read_cluster_whole hbytes hlength hc hinside
      obtain ⟨bufOut', hload, hstored, hbefore⟩ := ih d (rest.length + 1 + fuel)
        (startLoc + clusterBytes h)
        (bufOut.copy startLoc image.bytes (dataPos h c.toNat) (clusterBytes h)) hrest
        (fun e he => hin e (List.mem_cons_of_mem c he)) (by omega)
      refine ⟨bufOut', ?_, ?_, ?_⟩
      · rw [List.length_cons, loadClusters, hread, hpos, next_cluster_table hfat hmark]
        rw [if_neg Bool.true_eq_false_eq_False, if_pos hnext]
        exact hload
      · intro j e he i hi
        cases j with
        | zero =>
            -- the first cluster is before the place where the rest is stored
            obtain rfl := Option.some.inj he
            rw [Nat.zero_mul, Nat.zero_add, hbefore _ (by omega),
              ByteMem.copy_inside (by omega) (by omega), Nat.add_sub_cancel_left]
        | succ j =>
            have hrest := hstored j e he i hi
            rw [← hrest]
            congr 1
            rw [Nat.succ_mul]
            omega
      · intro x hx
        rw [hbefore x (by omega)]
        exact ByteMem.copy_outside (Or.inl hx)

/-! ## The bytes and their count -/

/-- The loop that keeps the bytes ends as the loop that counts them does, and has changed no byte
before its place in the buffer or from the count on. -/
theorem load_clusters_stored : ∀ fuel curr startLoc (bufOut : ByteMem),
    (loadClusters h image fat fuel curr startLoc bufOut).map Prod.snd =
      (readClusters h image fat fuel curr startLoc).map Prod.snd ∧
    ∀ r s, loadClusters h image fat fuel curr startLoc bufOut = some r →
      readClusters h image fat fuel curr startLoc = some s →
      ∀ x, x < startLoc ∨ s.1 ≤ x → r.1 x = bufOut x := by
  intro fuel
  induction fuel with
  | zero => exact fun _ _ _ => ⟨rfl, fun _ _ hr => absurd hr (Option.some_ne_none _).symm⟩
  | succ fuel ih =>
      intro curr startLoc bufOut
      rw [loadClusters, readClusters]
      cases hread : (readSector h image (clusterLba h curr) h.sectorPerCluster).2 with
      | false =>
          simp only [if_true]
          refine ⟨rfl, fun r s hr hs x hx => ?_⟩
          cases hr
          cases hs
          exact ByteMem.copy_outside hx
      | true =>
          simp only [Bool.true_eq_false, if_false]
          have hfull : (readSector h image (clusterLba h curr) h.sectorPerCluster).1 ≤
              clusterBytes h := by
            rw [clusterBytes, Nat.mul_comm]
            exact Nat.min_le_left ..
          by_cases hnext : nextCluster fat curr < 0xff8
          · rw [if_pos hnext, if_pos hnext]
            obtain ⟨hend, hrest⟩ := ih (nextCluster fat curr) (startLoc + clusterBytes h)
              (bufOut.copy startLoc image.bytes (sectorPos h (clusterLba h curr))
                (readSector h image (clusterLba h curr) h.sectorPerCluster).1)
            refine ⟨hend, fun r s hr hs x hx => ?_⟩
            have hge := read_clusters_ge _ _ _ _ hs
            rw [hrest r s hr hs x (by omega)]
            exact ByteMem.copy_outside (by omega)
          · rw [if_neg hnext, if_neg hnext]
            refine ⟨rfl, fun r s hr hs x hx => ?_⟩
            cases hr
            cases hs
            exact ByteMem.copy_outside (by simp only at hx; omega)

/-- The run that prints ends with the exit code of the run that counts. -/
theorem print_image_code (env : HostEnv) (staleOut behind : ByteMem) (image : Image)
    (target : List UInt8) (fuel : Nat) :
    (printImage env staleOut behind image target fuel).map Prod.snd =
      (readImage env image (argBytes target behind) fuel).map Prod.snd := by
  unfold printImage readImage
  cases hheader : readBootHeader image with
  | none => rfl
  | some h =>
      simp only
      split_ifs with hfat hroot hsearch
      · rfl
      · rfl
      · rfl
      · cases hfound : searchRoot h (rootBytes env h image) (argBytes target behind) with
        | none => exact absurd hfound hsearch
        | some index =>
            have hloop : (loadClusters h image (fatBytes env h image) fuel
                (entryCluster (rootBytes env h image) index) 0 staleOut).map Prod.snd = _ :=
              (load_clusters_stored fuel _ 0 staleOut).1
            simp only [printFile, readFile, hfound]
            cases env.outGranted with
            | false => rfl
            | true =>
                simp only [if_true, Option.map_map]
                generalize loadClusters h image _ fuel _ 0 staleOut = printed at hloop ⊢
                generalize readClusters h image _ fuel _ 0 = counted at hloop ⊢
                cases printed with
                | none =>
                    cases counted with
                    | none => rfl
                    | some s => cases hloop
                | some r =>
                    cases counted with
                    | none => cases hloop
                    | some s =>
                        have hok : r.2 = s.2 := Option.some.inj hloop
                        simp only [Option.map_some, Function.comp_apply, hok]
                        cases s.2 <;> rfl

/-! ## The whole run -/

/-- Where the clusters of a file hold its bytes, these are printed. -/
theorem print_bytes_content {bufOut : ByteMem} (hf : f.WellFormed h table)
    (hdata : ∀ j c, f.clusters[j]? = some c → ∀ i < clusterBytes h, ∀ b,
      f.content[j * clusterBytes h + i]? = some b → bufOut (j * clusterBytes h + i) = b)
    (hcluster : 0 < clusterBytes h) :
    printBytes bufOut f.content.length = f.content.map printByte := by
  refine List.ext_getElem (by rw [printBytes, List.length_map, List.length_map, List.length_range])
    fun x hx _ => ?_
  rw [printBytes, List.length_map, List.length_range] at hx
  have hsplit := Nat.div_add_mod' x (clusterBytes h)
  have hmod := Nat.mod_lt x hcluster
  have hj : x / clusterBytes h < f.clusters.length := by
    rw [hf.filled, Nat.lt_iff_add_one_le, ← Nat.add_div_right x hcluster]
    exact Nat.div_le_div_right (by omega)
  have hbyte := hdata (x / clusterBytes h) _ (List.getElem?_eq_getElem hj) (x % clusterBytes h)
    hmod f.content[x] (by rw [hsplit]; exact List.getElem?_eq_getElem hx)
  rw [hsplit] at hbyte
  simp only [printBytes, List.getElem_map, List.getElem_range, hbyte]

/-- A file has a first cluster, and its entry names it. -/
theorem EntryAt.first_cluster {i : Nat} (hentry : EntryAt dir i f) (hf : f.WellFormed h table) :
    ∃ c rest, f.clusters = c :: rest ∧ entryCluster dir i = c.toNat := by
  have hhead := hentry.first
  cases hchain : f.clusters with
  | nil =>
      have hlinked := hf.linked
      rw [hchain] at hlinked
      exact absurd hlinked id
  | cons c rest =>
      rw [hchain] at hhead
      exact ⟨c, rest, rfl, Option.some.inj hhead⟩

/-- `read_file` prints the file that it finds. -/
theorem Volume.OnImage.print_file (hv : v.OnImage image) (env : HostEnv) (staleOut : ByteMem)
    {index : Nat} (hf : v.files[index]? = some f)
    (hfound : searchRoot v.header (rootBytes env v.header image) name = some index)
    (hgranted : env.outGranted = true) {fuel : Nat} (hfuel : f.clusters.length ≤ fuel) :
    printFile env staleOut v.header image (fatBytes env v.header image)
      (rootBytes env v.header image) name fuel = some (f.content.map printByte, true) := by
  have hmem : f ∈ v.files := List.mem_of_getElem? hf
  have hwf := v.well_formed f hmem
  have hentry := hv.loaded_entry env hf
  obtain ⟨spare, hfat⟩ := hv.fat_bytes env
  obtain ⟨c, rest, hchain, hfirst⟩ := hentry.first_cluster hwf
  obtain ⟨bufOut, hload, hstored, _⟩ := load_clusters_chain v.sectors hv.length_lt hfat rest c
    fuel 0 staleOut (hchain ▸ hwf.linked)
    (fun d hd => ⟨hwf.data d (hchain ▸ hd), hv.inside f hmem d (hchain ▸ hd)⟩)
    (by rw [hchain] at hfuel; exact hfuel)
  have hprint : printBytes bufOut f.content.length = f.content.map printByte :=
    print_bytes_content hwf (fun j d hd i hi b hb => by
      have hbyte := hstored j d (hchain ▸ hd) i hi
      rw [Nat.zero_add] at hbyte
      rw [hbyte]
      exact hv.data f hmem j d hd i hi b hb)
    (Nat.mul_pos (Nat.pos_of_ne_zero v.clusters) (Nat.pos_of_ne_zero v.sectors))
  rw [printFile, hfound]
  simp only [hgranted, if_true, hfirst, hload, Option.map_some, hentry.size, hprint]

/-- The buffer of a file is as large as its clusters. -/
theorem VolumeFile.WellFormed.buf_clusters (hf : f.WellFormed h table)
    (hcluster : 0 < clusterBytes h) : bufClusters h f.content.length = f.clusters.length := by
  have hsize := hf.size_lt
  rw [bufClusters, add32_of_lt hsize, sub32_of_le (by omega) hsize, hf.filled]

/-- Nothing is stored past the end of a buffer. -/
theorem Volume.OnImage.stays_in_buffers (hv : v.OnImage image) (env : HostEnv)
    (fileName : ByteMem)
    (hfound : ∀ index, searchRoot v.header (rootBytes env v.header image) fileName = some index →
      ∃ f, v.files[index]? = some f) : StaysInBuffers env image fileName := by
  have hcluster : 0 < clusterBytes v.header :=
    Nat.mul_pos (Nat.pos_of_ne_zero v.clusters) (Nat.pos_of_ne_zero v.sectors)
  rw [read_image_stays hv.header]
  refine ⟨fat_stays.mpr fun _ => Or.inl ?_, fun _ => (root_stays v.sectors).mpr fun _ =>
    Or.inl v.full_root, fun index _ _ hindex => ?_⟩
  · have hroot := hv.root_le
    have hfat := fat_pos_add v.header
    have hlength := hv.length_lt
    rw [Nat.mul_comm]
    omega
  · obtain ⟨f, hf⟩ := hfound index hindex
    have hwf := v.well_formed f (List.mem_of_getElem? hf)
    have hentry := hv.loaded_entry env hf
    obtain ⟨spare, hfat⟩ := hv.fat_bytes env
    refine (read_file_stays v.sectors v.clusters hindex).mpr fun _ => ?_
    rw [hentry.size, hwf.buf_clusters hcluster]
    obtain ⟨c, rest, hchain, hfirst⟩ := hentry.first_cluster hwf
    rw [hfirst, hchain]
    exact Or.inl ⟨rest.length, Nat.lt_succ_self _,
      Or.inl (linked_chain_ends hfat rest c (hchain ▸ hwf.linked))⟩

/-- What is printed of an image that holds a volume. -/
theorem Volume.OnImage.print_image (hv : v.OnImage image) (env : HostEnv)
    (hfat : env.fatGranted = true) (hroot : env.rootGranted = true) (hout : env.outGranted = true)
    (staleOut behind : ByteMem) {target : List UInt8} (hlength : 11 ≤ target.length) {fuel : Nat}
    (hfuel : ∀ f ∈ v.files, f.clusters.length ≤ fuel) :
    printImage env staleOut behind image target fuel =
      some (match v.lookup (target.take 11) with
        | some f => (f.content.map printByte, 0)
        | none => ([.stderr ("could not find ".toList ++ argText target ++
            " from root\n".toList)], -6)) := by
  have hfatOk : (readFat env v.header image).ok = true := by
    simp only [readFat, hfat, if_true, hv.fat_read.2]
  have hrootOk : (readRootDir env v.header image).ok = true := by
    simp only [readRootDir, hroot, if_true, hv.root_read.2]
  have hsearch := hv.search_root env behind hlength
  simp only [printImage, hv.header, hfatOk, hrootOk, Bool.true_eq_false, if_false]
  cases hlookup : v.lookup (target.take 11) with
  | none =>
      simp only [hlookup] at hsearch
      exact if_pos hsearch
  | some f =>
      simp only [hlookup] at hsearch
      obtain ⟨index, hfound, hf⟩ := hsearch
      have hprint := hv.print_file env staleOut hf hfound hout
        (hfuel f (List.mem_of_getElem? hf))
      rw [if_neg (by rw [hfound]; exact Option.some_ne_none _), hprint]
      rfl

/-- On an image that holds a volume the program prints the file that the volume has under the name,
byte by byte and to the end, or says that there is none. The run that counts the stores ends with
the same code, and none of them is past the end of a buffer. -/
theorem fat_main_prints (v : Volume) (image : Image) (hv : v.OnImage image) (env : HostEnv)
    (hfat : env.fatGranted = true) (hroot : env.rootGranted = true) (hout : env.outGranted = true)
    (staleOut behind : ByteMem) (program disk target : List UInt8) (rest : List (List UInt8))
    (hlength : 11 ≤ target.length) (fopen : List UInt8 → Option Image)
    (hopen : fopen disk = some image) (fuel : Nat)
    (hfuel : ∀ f ∈ v.files, f.clusters.length ≤ fuel) :
    (fatMain env staleOut behind (program :: disk :: target :: rest) fopen fuel =
      some (match v.lookup (target.take 11) with
        | some f => (f.content.map printByte, 0)
        | none => ([.stderr ("could not find ".toList ++ argText target ++
            " from root\n".toList)], -6))) ∧
      (readImage env image (argBytes target behind) fuel).map Prod.snd =
        some (if (v.lookup (target.take 11)).isSome then 0 else -6) ∧
      StaysInBuffers env image (argBytes target behind) := by
  have hprint := hv.print_image env hfat hroot hout staleOut behind hlength hfuel
  have hcode := print_image_code env staleOut behind image target fuel
  rw [hprint] at hcode
  refine ⟨by simp only [fatMain, hopen, hprint], hcode.symm.trans ?_,
    hv.stays_in_buffers env _ fun index hindex => ?_⟩
  · cases v.lookup (target.take 11) <;> rfl
  · have hsearch := hv.search_root env behind hlength
    cases hlookup : v.lookup (target.take 11) with
    | none =>
        simp only [hlookup] at hsearch
        rw [hsearch] at hindex
        cases hindex
    | some f =>
        simp only [hlookup] at hsearch
        obtain ⟨index', hfound, hf⟩ := hsearch
        rw [hfound] at hindex
        obtain rfl := Option.some.inj hindex
        exact ⟨f, hf⟩

/-- A file of two clusters. -/
def twoClusters : VolumeFile :=
  ⟨List.replicate 11 0x41, [2, 3], List.replicate 513 0x42⟩

theorem two_clusters_range {c : BitVec 12} (hc : c ∈ twoClusters.clusters) :
    2 ≤ c.toNat ∧ c.toNat ≤ 3 := by
  rcases List.mem_cons.mp hc with rfl | hc
  · exact ⟨Nat.le_refl 2, Nat.le_succ 2⟩
  · obtain rfl := List.mem_singleton.mp hc
    exact ⟨Nat.le_succ 2, Nat.le_refl 3⟩

/-- A volume with this file alone. -/
def smallVolume : Volume where
  header := ⟨512, 1, 1, 1, 16, 1⟩
  table := [0xff0, 0xfff, 0x003, 0xfff]
  files := [twoClusters]
  sectors := by decide
  clusters := by decide
  full_root := ⟨1, rfl⟩
  room := by decide
  well_formed := by
    intro f hf
    obtain rfl := List.mem_singleton.mp hf
    exact
      { name_length := List.length_replicate
        name_used := by decide
        linked := ⟨rfl, by decide, 0xfff, rfl, by decide⟩
        data := fun c hc => (two_clusters_range hc).1
        filled := by rw [twoClusters, List.length_replicate]; rfl
        size_lt := by rw [twoClusters, List.length_replicate]; decide }

/-- The entry of the file. -/
def twoClustersEntry : ByteMem := fun i =>
  if i < 11 then 0x41
  else
    match i with
    | 26 => 0x02
    | 28 => 0x01
    | 29 => 0x02
    | _ => 0x00

/-- An image that holds the volume. -/
def twoClustersImage : Image where
  bytes := fun i =>
    if i < 512 then (smallImage 16).bytes i
    else if i < 1024 then fatTable (packFat12 0 smallVolume.table) (i - 512)
    else if i < 1536 then twoClustersEntry (i - 1024)
    else 0x42
  length := 2560

theorem two_clusters_entry_at : EntryAt twoClustersEntry 0 twoClusters where
  name := by
    intro j hj
    have hbyte : twoClustersEntry j = 0x41 := if_pos hj
    rw [Nat.mul_zero, Nat.zero_add, hbyte, twoClusters, List.getElem?_replicate, if_pos hj]
  first := rfl
  size := by
    rw [twoClusters, List.length_replicate]
    rfl

theorem two_clusters_root {x : Nat} (hx : x < 512) :
    twoClustersImage.bytes.view 1024 x = twoClustersEntry x := by
  simp only [twoClustersImage, ByteMem.view_apply]
  rw [if_neg (by omega), if_neg (by omega), if_pos (by omega), Nat.add_sub_cancel_left]

theorem small_data_pos (c : Nat) :
    dataPos smallVolume.header c = (3 + (c - 2) * 1) * 512 := rfl

theorem small_volume_on_image : smallVolume.OnImage twoClustersImage where
  header := rfl
  length_lt := by decide
  table := by
    refine ⟨0, fun j hj => ?_, by decide⟩
    have hlt : j < 6 := hj
    refine Eq.trans ?_ (starts_with_fat_table (packFat12 0 smallVolume.table) j hj)
    have hpos : fatPos smallVolume.header = 512 := rfl
    rw [ByteMem.view_apply, hpos]
    simp only [twoClustersImage]
    rw [if_neg (by omega), if_pos (by omega), Nat.add_sub_cancel_left]
  root_inside := by decide
  entries := by
    intro i f hf
    obtain ⟨hi, rfl⟩ := List.getElem?_eq_some_iff.mp hf
    obtain rfl : i = 0 := Nat.lt_one_iff.mp hi
    exact two_clusters_entry_at.congr fun x hx => two_clusters_root (by omega)
  free_entry := fun _ => two_clusters_root (x := 32) (by decide)
  inside := by
    intro f hf c hc
    obtain rfl := List.mem_singleton.mp hf
    have hrange := two_clusters_range hc
    have hcluster : clusterBytes smallVolume.header = 512 := rfl
    have hlength : twoClustersImage.length = 2560 := rfl
    rw [small_data_pos, hcluster, hlength]
    omega
  data := by
    intro f hf j c hc i hi b hb
    obtain rfl := List.mem_singleton.mp hf
    have hfill : b = 0x42 := by
      rw [twoClusters, List.getElem?_replicate] at hb
      split_ifs at hb
      exact (Option.some.inj hb).symm
    have hdata : 1536 ≤ dataPos smallVolume.header c.toNat := by
      rw [small_data_pos]
      omega
    simp only [twoClustersImage]
    rw [if_neg (by omega), if_neg (by omega), if_neg (by omega), hfill]

/-- The two clusters are printed up to the size of the file. -/
theorem small_volume_printed :
    (fatMain zeroHost (fun _ => 0xff) (fun _ => 0xff) [[], [], List.replicate 11 0x41]
        (fun _ => some twoClustersImage) 2 =
      some (match smallVolume.lookup ((List.replicate 11 0x41).take 11) with
        | some f => (f.content.map printByte, 0)
        | none => ([.stderr ("could not find ".toList ++ argText (List.replicate 11 0x41) ++
            " from root\n".toList)], -6))) ∧
      (readImage zeroHost twoClustersImage (argBytes (List.replicate 11 0x41) fun _ => 0xff) 2).map
          Prod.snd =
        some (if (smallVolume.lookup ((List.replicate 11 0x41).take 11)).isSome then 0 else -6) ∧
      StaysInBuffers zeroHost twoClustersImage
        (argBytes (List.replicate 11 0x41) fun _ => 0xff) :=
  fat_main_prints smallVolume twoClustersImage small_volume_on_image zeroHost rfl rfl rfl _ _ []
    [] (List.replicate 11 0x41) [] (by decide) _ rfl 2 (by decide)

end Genesis32
