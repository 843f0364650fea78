import Cheviot.Fatfs.FileRun
import Cheviot.Fatfs.Init
import Cheviot.Fatfs.WriteThrough

/-!
# A server that is killed and started anew

When the process ends between two messages, its block cache and its nodes are lost. A new one
opens the device and looks for the partition again.

* `init` — the start of the server.
* `SessionStep`, `ServerStep` — messages and new starts, of the store and of the server.
* `sessions_answer` — the server keeps what it has answered, however often it is started.

A step of the store is one of the server (`sessions_simulate`). For a message that is
`store_simulates`, as every write goes through the cache to the device. A new start reads the
device alone: the sectors that `detectPartition` reads are in no area of the volume, so it
finds what the first start has found, and the files are those on the device.

Mirroring notes:
- `init` begins where the arguments have been read and the device has been opened. The
  formatting, the message port and the event queue are left out.
-/

namespace Cheviot.Fatfs

open Cheviot.Bytes Cheviot.Refine

/-! ## The start -/

/-- What the process has in memory, and the device behind it. -/
structure Server where
  cache : Cache
  sb : FatSb
  vol : Vol

/-- `init` -/
def init (dev : Nat → Buf) : Except Fault Server :=
  match createCache dev 64 512 true 0 with
  | none => .error .exit
  | some c =>
    match detectPartition.run (cacheOp 0) c with
    | .error e => .error e
    | .ok (_, none) => .error .exit
    | .ok (c', some sb) => .ok ⟨c', sb, initVol⟩

/-- The bytes of a device. -/
def deviceBytes (dev : Nat → Buf) (a : Nat) : UInt8 := dev (a / 512) (a % 512)

/-- No partition of the master boot record begins in the FATs of the volume, in its root
directory or in its clusters. -/
def Partitioned (sb : FatSb) (flat : Nat → UInt8) : Prop :=
  ∀ t, t < 4 → (mbrEntry (slice flat 0 512) t).partitionType ≠ 0 →
    Beyond sb (512 * (mbrEntry (slice flat 0 512) t).lba)

section Start

variable {sb : FatSb} {flat flat' : Nat → UInt8} {dev dev' : Nat → Buf} {t : Server}

theorem blockRead_run {block : Nat} (hlt : block < 2 ^ 32) :
    (blockRead block).run (flatOp 0) flat = .ok (flat, slice flat (512 * block) 512) := by
  have hbyte : byteOf 0 block (sectorOffset 0) = 512 * block := by
    unfold byteOf blockOf
    rw [Nat.add_zero, Nat.mod_eq_of_lt hlt]
    rfl
  rw [blockRead, FatM.readSector, Prog.run_op, flatOp, hbyte, ringSlice_eq flat (by omega)]

/-- With a sector, all of its bytes are outside the areas. -/
theorem Beyond.sector {block : Nat} (h : Beyond sb (512 * block)) {i : Nat} (hi : i < 512) :
    Beyond sb (512 * block + i) := by
  unfold Beyond volumeEnd at h ⊢
  omega

/-- The loop reads the boot sectors of the table, and nothing else. -/
theorem detectLoop_congr {bootsector : List UInt8} (n : Nat) : ∀ {t flat₁ r},
    (∀ j, t ≤ j → j < t + n → (mbrEntry bootsector j).partitionType ≠ 0 →
      slice flat' (512 * (mbrEntry bootsector j).lba) 512 =
        slice flat (512 * (mbrEntry bootsector j).lba) 512) →
    (detectLoop bootsector n t).run (flatOp 0) flat = .ok (flat₁, r) →
    (detectLoop bootsector n t).run (flatOp 0) flat' = .ok (flat', r) := by
  induction n with
  | zero =>
    intro t flat₁ r _ hrun
    cases hrun
    rfl
  | succ n ih =>
    intro t flat₁ r hsame hrun
    have hrest : ∀ j, t + 1 ≤ j → j < t + 1 + n → (mbrEntry bootsector j).partitionType ≠ 0 →
        slice flat' (512 * (mbrEntry bootsector j).lba) 512 =
          slice flat (512 * (mbrEntry bootsector j).lba) 512 :=
      fun j hlo hhi => hsame j (by omega) (by omega)
    rw [detectLoop] at hrun ⊢
    by_cases htype : (mbrEntry bootsector t).partitionType = 0
    · rw [if_pos htype] at hrun ⊢
      exact ih hrest hrun
    · have hlba : (mbrEntry bootsector t).lba < 2 ^ 32 := leWord32_lt _
      rw [if_neg htype, Prog.run_bind_ok _ (blockRead_run hlba)] at hrun ⊢
      rw [hsame t (Nat.le_refl _) (by omega) htype]
      cases hcheck : checkBpb (mbrEntry bootsector t).lba
          (slice flat (512 * (mbrEntry bootsector t).lba) 512) with
      | none =>
        rw [hcheck] at hrun
        exact ih hrest hrun
      | some sb =>
        rw [hcheck] at hrun
        cases hrun
        rfl

/-- A volume that has been found has reserved sectors and a FAT. -/
theorem checkBpb_counts {lba : Nat} {fileBuf : List UInt8} (h : checkBpb lba fileBuf = some sb) :
    sb.reservedSectorsCnt ≠ 0 ∧ 0 < sb.fatCnt ∧ sb.sectorsPerFat16 < 2 ^ 16 := by
  unfold checkBpb at h
  dsimp only at h
  simp only [Option.ite_none_left_eq_some] at h
  obtain ⟨-, -, hreserved, hcnt, -, -, -, -, -, -, heq⟩ := h
  cases heq
  exact ⟨hreserved, Nat.pos_of_ne_zero hcnt, leWord16_lt _⟩

/-- What the loop finds is in a boot sector. -/
theorem detectLoop_found (bootsector : List UInt8) (n : Nat) : ∀ t,
    (detectLoop bootsector n t).Meets DiskOp.IsRead fun r => ∀ sb, r = some sb →
      ∃ lba fileBuf, checkBpb lba fileBuf = some sb := by
  induction n with
  | zero =>
    intro t
    refine .pure fun sb h => ?_
    cases h
  | succ n ih =>
    intro t
    rw [detectLoop]
    split
    · exact ih (t + 1)
    · refine .bind (FatM.readSector_meets ..) fun fileBuf _ => ?_
      cases hcheck : checkBpb (mbrEntry bootsector t).lba fileBuf with
      | none => exact ih (t + 1)
      | some sb =>
        refine .pure fun sb' h => ?_
        cases h
        exact ⟨_, _, hcheck⟩

theorem detectPartition_found : detectPartition.Meets DiskOp.IsRead fun r => ∀ sb, r = some sb →
    ∃ lba fileBuf, checkBpb lba fileBuf = some sb :=
  .bind (FatM.readSector_meets ..) fun bootsector _ => detectLoop_found bootsector 4 0

/-- What `detectPartition` finds it finds again, on a device that is the same outside the
areas. -/
theorem detectPartition_congr (hreserved : sb.reservedSectorsCnt ≠ 0)
    (hparts : Partitioned sb flat) (hsame : ∀ a, Beyond sb a → flat' a = flat a)
    (hrun : detectPartition.run (flatOp 0) flat = .ok (flat, some sb)) :
    detectPartition.run (flatOp 0) flat' = .ok (flat', some sb) := by
  have hsector : ∀ block, Beyond sb (512 * block) →
      slice flat' (512 * block) 512 = slice flat (512 * block) 512 := by
    intro block hblock
    exact slice_congr fun i hi => hsame _ (hblock.sector hi)
  have htable : slice flat' 0 512 = slice flat 0 512 := hsector 0 (.inl (by omega))
  unfold detectPartition at hrun ⊢
  rw [Prog.run_bind_ok _ (blockRead_run (by decide))] at hrun ⊢
  rw [Nat.mul_zero] at hrun ⊢
  rw [htable]
  exact detectLoop_congr 4 (fun j _ hj htype => hsector _ (hparts j (by omega) htype)) hrun

/-- `init` on a device with a volume: a cache that stands for the device, and the root node. -/
theorem init_of_found
    (hrun : detectPartition.run (flatOp 0) (deviceBytes dev) = .ok (deviceBytes dev, some sb)) :
    ∃ c, init dev = .ok ⟨c, sb, initVol⟩ ∧ WrittenThrough c (deviceBytes dev) := by
  obtain ⟨c, hcreate⟩ : ∃ c, createCache dev 64 512 true 0 = some c := ⟨_, rfl⟩
  have hstart : WrittenThrough c (deviceBytes dev) := createCache_through hcreate
  obtain ⟨c', hcache, hthrough⟩ := run_through_of_flat hstart hrun
  refine ⟨c', ?_, hthrough⟩
  unfold init
  rw [hcreate]
  dsimp only
  rw [hcache]

/-- There is no other way for it to return. -/
theorem init_found (h : init dev = .ok t) :
    detectPartition.run (flatOp 0) (deviceBytes dev) = .ok (deviceBytes dev, some t.sb) ∧
      WrittenThrough t.cache (deviceBytes dev) ∧ t.vol = initVol := by
  obtain ⟨c, hcreate⟩ : ∃ c, createCache dev 64 512 true 0 = some c := ⟨_, rfl⟩
  unfold init at h
  rw [hcreate] at h
  dsimp only at h
  cases hcache : detectPartition.run (cacheOp 0) c with
  | error e =>
    rw [hcache] at h
    cases h
  | ok r =>
    rw [hcache] at h
    obtain ⟨c', found⟩ := r
    cases found with
    | none => cases h
    | some sb =>
      cases h
      have hstart : WrittenThrough c (deviceBytes dev) := createCache_through hcreate
      obtain ⟨flat', hflat, hthrough⟩ := run_through_of_cache hstart hcache
      obtain ⟨rfl, -⟩ := run_reads detectPartition_meets hflat
      exact ⟨hflat, hthrough, rfl⟩

end Start

/-! ## The layout -/

/-- A FAT16 volume whose fields fit each other, with FATs of the size that is read first, in
blocks that 32 bits count. -/
structure Fat16Fits (sb : FatSb) : Prop extends GeometryFits sb where
  fat16 : sb.fatType = .fat16
  fatSz : sb.sectorsPerFat16 ≠ 0
  blocks : sb.partitionStart + sb.totalSectorsCnt ≤ 2 ^ 32

/-- What `detectPartition` finds has the layout that all of the handler relies on, where its
fields fit. -/
theorem Fat16Fits.layout {sb : FatSb} (h : Fat16Fits sb) {lba : Nat} {fileBuf : List UInt8}
    (hcheck : checkBpb lba fileBuf = some sb) : DataLayout sb := by
  obtain ⟨-, hcnt, hlt⟩ := checkBpb_counts hcheck
  have hc := checkBpb_checked hcheck
  have hareas := h.areas
  have hblocks := h.blocks
  have hfat := h.fat
  obtain ⟨-, hclusters⟩ := clusterCnt_eq hc.total_lt hareas
  have hper : sb.sectorsPerFat = sb.sectorsPerFat16 := if_pos h.fatSz
  have hsz : sb.fatSz = sb.sectorsPerFat16 := by
    rw [FatSb.fatSz, h.fat16]
  -- the clusters end where the volume does
  have hsectors : sb.clusterCnt * sb.sectorsPerCluster ≤ sb.totalSectorsCnt - sb.areasEnd := by
    rw [hclusters]
    exact Nat.div_mul_le_self ..
  have hends : sb.areasEnd =
      sb.reservedSectorsCnt + sb.fatCnt * sb.sectorsPerFat16 + sb.rootDirSectors := by
    rw [FatSb.areasEnd, FatSb.rootDirStart, hper]
  -- the number of clusters is one of a FAT16 volume
  have htype := hc.type_eq
  rw [← hclusters, h.fat16, hper] at hfat
  rw [h.fat16] at htype
  simp only [entryWidth] at hfat
  refine ⟨⟨hcnt, ?_, ?_⟩, hc.cluster_pos, hper.trans hsz.symm, ?_, fun cluster hin => ?_, ?_⟩
  · rw [hsz]
    omega
  · rw [hsz]
    omega
  · rw [FatSb.areasEnd] at hareas hsectors
    omega
  · unfold EntryInside
    rw [h.fat16, hsz]
    simp only [entryOffset, entryWidth]
    omega
  · rw [h.fat16]
    unfold fatTypeOf at htype
    simp only [FatType.allocMax]
    split at htype
    · cases htype
    · split at htype
      · omega
      · cases htype

/-! ## Sessions -/

section Sessions

variable {ι : Type}

/-- A message and its replies, or nothing where the server is started anew. -/
inductive SessionStep [DecidableEq ι] (cat : Catalog ι) :
    Store ι → Option (Message × List Reply) → Store ι → Prop where
  | message {s e s'} (h : StoreStep cat s e s') : SessionStep cat s (some e) s'
  | restart {s} : SessionStep cat s none (s.restart cat)

/-- The same of the server. Of an old process the new one has the device and no more, and a
start that finds another volume on it, or none, is no step. -/
inductive ServerStep (env : Env) (fuel : Nat) :
    Server → Option (Message × List Reply) → Server → Prop where
  | message {t c v msg replies} (h : (handle env t.sb fuel t.vol msg).run
      (cacheOp t.sb.partitionStart) t.cache = .ok (c, v, replies)) :
      ServerStep env fuel t (some (msg, replies)) { t with cache := c, vol := v }
  | restart {t t'} (h : init t.cache.dev = .ok t') (hsame : t'.sb = t.sb) :
      ServerStep env fuel t none t'

variable {env : Env} {sb : FatSb} {fuel : Nat} {dev : Nat → Buf} {flat : Nat → UInt8}
  {entry : ι → Nat} {chains : ι → List Nat} {lost : ι → Nat} {t : Server} {s : Store ι}

/-- A server whose nodes and whose device stand for a store. -/
structure ServerHolds (sb : FatSb) (flat : Nat → UInt8) (entry : ι → Nat) (lost : ι → Nat)
    (s : Store ι) (t : Server) : Prop where
  volume : t.sb = sb
  counted : Counted t.vol
  serving : ∃ flat' chains, WrittenThrough t.cache flat' ∧
    Serving sb flat entry lost flat' t.vol s chains

/-- The device outside the areas is as it was. -/
theorem ServerHolds.beyond (h : ServerHolds sb flat entry lost s t) {a : Nat} (ha : Beyond sb a) :
    deviceBytes t.cache.dev a = flat a := by
  obtain ⟨flat', _, hthrough, hserving⟩ := h.serving
  exact (hthrough.onDevice a).trans (hserving.beyond a ha)

/-- A new start finds the volume, and the files as they are on it. -/
theorem ServerHolds.restart (h : ServerHolds sb flat entry lost s t)
    (hreserved : sb.reservedSectorsCnt ≠ 0) (hparts : Partitioned sb flat) (env : Env) (fuel : Nat)
    (hfound : detectPartition.run (flatOp 0) flat = .ok (flat, some sb)) : ∃ t',
      init t.cache.dev = .ok t' ∧
      ServerHolds sb flat entry lost (s.restart (catalog sb flat entry lost env fuel)) t' := by
  obtain ⟨flat', chains, hthrough, hserving⟩ := h.serving
  have hagain := detectPartition_congr hreserved hparts (fun _ ha => h.beyond ha) hfound
  obtain ⟨c, hinit, hnew⟩ := init_of_found hagain
  have hdev : deviceBytes t.cache.dev = flat' := funext hthrough.onDevice
  exact ⟨_, hinit, rfl, initVol_counted, flat', chains, hdev ▸ hnew,
    hserving.toDiskServes.restart env fuel⟩

variable [DecidableEq ι]

/-- A step of the store is one of the server. -/
theorem sessions_simulate (hl : DataLayout sb) (ht : sb.fatType ≠ .fat32)
    (hfuel : sb.clusterCnt + 2 ≤ fuel) (hroot : sb.rootEntriesCnt < fuel)
    (hheap : ∀ n, env.heapIsRoot n = false)
    (hnumber : ∀ k, getFirstCluster sb (rootEntry sb flat (entry k)) = fileNr sb flat entry k)
    (hreserved : sb.reservedSectorsCnt ≠ 0) (hparts : Partitioned sb flat)
    (hfound : detectPartition.run (flatOp 0) flat = .ok (flat, some sb)) :
    Simulates (SessionStep (catalog sb flat entry lost env fuel)) (ServerStep env fuel)
      (ServerHolds sb flat entry lost) := by
  intro s t e s' h hstep
  cases hstep with
  | restart =>
    obtain ⟨t', hinit, hstored⟩ := h.restart hreserved hparts env fuel hfound
    exact ⟨t', .restart hinit (hstored.volume.trans h.volume.symm), hstored⟩
  | message hstep =>
    rename_i e
    obtain ⟨flat', chains, hthrough, hserving⟩ := h.serving
    obtain ⟨t', hrun, hcnt, chains', hserving'⟩ := store_simulates hl ht hfuel hroot hheap hnumber
      s (flat', t.vol) e s' ⟨h.counted, chains, hserving⟩ hstep
    obtain ⟨c, hcache, hthrough'⟩ := run_through_of_flat hthrough hrun
    have hvolume := h.volume
    subst hvolume
    exact ⟨_, .message hcache, rfl, hcnt, t'.1, chains', hthrough', hserving'⟩

end Sessions

/-! ## A file that is overwritten and removed -/

/-- The disk of 5000 sectors with a file of three bytes in cluster 2. -/
def sessionDev : Nat → Buf := fun sector i =>
  if sector < 2 then sampleDisk 0x88 0x13 sector i else fileDev sector i

theorem sessionDev_found : detectPartition.run (flatOp 0) (deviceBytes sessionDev) =
    .ok (deviceBytes sessionDev, some sampleFat16) := by
  have hfound : (detectPartition.run (flatOp 0) (deviceBytes sessionDev)).toOption.map Prod.snd =
      some (some sampleFat16) := by
    decide +kernel
  cases hrun : detectPartition.run (flatOp 0) (deviceBytes sessionDev) with
  | error e =>
    rw [hrun] at hfound
    cases hfound
  | ok r =>
    rw [hrun] at hfound
    obtain ⟨flat', found⟩ := r
    obtain ⟨rfl, -⟩ := run_reads detectPartition_meets hrun
    simp only [Except.toOption, Option.map_some, Option.some.injEq] at hfound
    rw [hfound]

theorem sampleFat16_fits : Fat16Fits sampleFat16 where
  areas := by decide
  fat := by decide
  root h := absurd h (by decide)
  fat16 := rfl
  fatSz := by decide
  blocks := by decide

theorem sessionDev_partitioned : Partitioned sampleFat16 (deviceBytes sessionDev) := by
  intro t ht htype
  have hlba : t = 0 ∨ (mbrEntry (slice (deviceBytes sessionDev) 0 512) t).partitionType = 0 := by
    have ht : t = 0 ∨ t = 1 ∨ t = 2 ∨ t = 3 := by omega
    rcases ht with rfl | rfl | rfl | rfl
    · exact .inl rfl
    · exact .inr (by decide +kernel)
    · exact .inr (by decide +kernel)
    · exact .inr (by decide +kernel)
  obtain rfl := hlba.resolve_right htype
  exact .inl (by decide +kernel)

theorem sessionDev_entry :
    getFirstCluster sampleFat16 (rootEntry sampleFat16 (deviceBytes sessionDev) 0) = 2 ∧
    rawFirstCluster (rootEntry sampleFat16 (deviceBytes sessionDev) 0) = 2 ∧
    (rootEntry sampleFat16 (deviceBytes sessionDev) 0).size = 3 := by
  decide +kernel

theorem sessionDev_files :
    RootFiles sampleFat16 (deviceBytes sessionDev) (fun _ : Unit => 0) fun _ => [2] where
  slot _ := show 0 < 16 by decide
  number _ := sessionDev_entry.1.trans sessionDev_entry.2.1.symm
  file _ := by
    show FileHas _ _ (rawFirstCluster (rootEntry sampleFat16 (deviceBytes sessionDev) 0)) [2]
      (.ofRow _ (rootEntry sampleFat16 (deviceBytes sessionDev) 0).size)
    rw [sessionDev_entry.2.1, sessionDev_entry.2.2]
    have hend : fatLink sampleFat16 (deviceBytes sessionDev) 2 = clusterEoc := by decide +kernel
    refine ⟨⟨rfl, by decide, ?_⟩, List.cons_ne_nil _ _, List.nodup_singleton _, ?_, by decide, rfl⟩
    · show ¬ Allocated (fatLink sampleFat16 (deviceBytes sessionDev) 2)
      rw [hend]
      decide
    · intro c hc
      rw [List.mem_singleton.mp hc, hend]
      decide
  apart k l h := absurd rfl h
  reserved := by
    intro c hc
    have hc : c = 0 ∨ c = 1 := by omega
    rcases hc with rfl | rfl
    · decide +kernel
    · decide +kernel

/-- What its root directory says. -/
def sessionCatalog : Catalog Unit :=
  catalog sampleFat16 (deviceBytes sessionDev) (fun _ => 0) (fileLost sampleFat16 fun _ => [2])
    sampleEnv 5000

/-- Its file. -/
def sessionMounted : Store Unit :=
  mountedStore sampleFat16 (deviceBytes sessionDev) (fun _ => 0) fun _ => [2]

theorem sessionCatalog_name :
    sessionCatalog.names [] (sampleName 'a'.toUInt8) (some ()) := by
  show NamedAt sampleFat16 (withoutFiles sampleFat16 _ (fun _ : Unit => 0) []) _ 0
  rw [withoutFiles_nil]
  exact ⟨show 0 < 16 by decide,
    show fatCmpDirent (rootEntry sampleFat16 (deviceBytes sessionDev) 0) _ = true by decide +kernel,
    fun j hj => absurd hj (Nat.not_lt_zero j)⟩

/-- A lookup of the file. -/
theorem sessionCatalog_look {s : Store Unit} (hs : s.gone = []) : SessionStep sessionCatalog s
    (some (.lookup 0 (sampleName 'a'.toUInt8), [⟨0, .lookup 2 3 0 0 0o777, .bytes []⟩]))
    (s.look sessionCatalog ()) := by
  have hnr : sessionCatalog.inodeNr () = 2 := sessionDev_entry.2.1
  have hsize : sessionCatalog.recorded () = 3 := sessionDev_entry.2.2
  have hmode : sessionCatalog.mode () = 0o777 := by decide +kernel
  have hstep := StoreStep.found (s := s) (by decide) (hs.symm ▸ sessionCatalog_name)
  rw [hnr, hsize, hmode] at hstep
  exact .message hstep

end Cheviot.Fatfs
