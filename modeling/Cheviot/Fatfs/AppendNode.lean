import Cheviot.Fatfs.Write

/-!
# Appending a cluster to any node

A node has a chain of clusters, or none, which its entry says in one of two ways: by the
mark for the end of a chain, or by the number 0. The root directory of a FAT32 volume has a
chain that its entry does not name. `AppendCluster` knows the first two cases: it takes the
number 0 for the first cluster of a chain.

* `AppendNode` — a node of a volume in order, with the clusters of its chain.
* `findLastLoop_ok` — what the walk to the end of a chain leaves, whatever it walks along.
* `writeFATLoop_mixes` — what a FAT32 volume's entries can have become by a write.
* `appendCluster_iff` — when `AppendCluster` appends a cluster or changes nothing.
-/

namespace Cheviot.Fatfs

open Cheviot.Bytes

/-! ## Nodes -/

section Nodes

variable (sb : FatSb) (flat : Nat → UInt8)

/-- A byte of the directory entry of a node, on the device. -/
def EntryByte (node : FatNode) (a : Nat) : Prop :=
  ∃ k, k < 32 ∧ a = (byteOf sb.partitionStart node.direntSector node.direntOffset + k) % 2 ^ 41

/-- A node with the clusters of its chain. If there are none, the entry has the mark or 0
for its first cluster; so has that of the root. The hint is a cluster of the chain, if there
is one, and the entry is not inside a FAT. -/
structure AppendNode (node : FatNode) (cs : List Nat) : Prop where
  chain : IsChain sb flat (chainStart sb node) cs
  nodup : cs.Nodup
  used : ∀ c ∈ cs, fatLink sb flat c ≠ clusterFree
  hint : node.hintCluster = 0 ∨ node.hintCluster ∈ cs
  root : node.isRoot = true → sb.fatType = .fat32 ∧ getFirstCluster sb node.dirent = 0
  empty : node.isRoot = false → cs = [] →
    getFirstCluster sb node.dirent = clusterEoc ∨ getFirstCluster sb node.dirent = 0
  entry : ∀ a, EntryByte sb node a → ¬ InFats sb a

/-- Where `FindLastCluster` begins to walk. -/
def walkStart (node : FatNode) : Nat :=
  if node.hintCluster ≠ 0 then node.hintCluster else getFirstCluster sb node.dirent

/-- What appending a cluster to a node should do: the free cluster it gives is the last one of
the node's chain, and no entry but its own and that of the last one before has changed.
If it gives none, the FATs and the node are as they were. -/
def Appended (v : Vol) (i : Nat) (cs : List Nat) (flat' : Nat → UInt8) (v' : Vol) :
    Option Nat → Prop
  | none => (∀ a, InFats sb a → flat' a = flat a) ∧ v'.nodes i = v.nodes i
  | some c => fatLink sb flat c = clusterFree ∧
    IsChain sb flat' (chainStart sb (v'.nodes i)) (cs ++ [c]) ∧
    fatLink sb flat' c = clusterEoc ∧
    ∀ d, d < sb.clusterCnt + 2 → d ≠ c → d ∉ cs.getLast? →
      fatLink sb flat' d = fatLink sb flat d

end Nodes

section Walk

variable {sb : FatSb} {flat flat' : Nat → UInt8} {i fuel : Nat} {v' : Vol} {r : Option Nat}

/-! ## The walk -/

/-- The walk to the end of a chain, of whatever entries: it ends at a link that leads nowhere,
and the hint is where it ends, if it has gone any further than where it began. -/
theorem findLastLoop_ok (hfat : sb.fatCnt ≠ 0) (fuel : Nat) : ∀ v cluster,
    (findLastLoop sb i fuel v cluster (fatLink sb flat cluster)).run (flatOp sb.partitionStart)
      flat = .ok (flat', v', r) →
    flat' = flat ∧ v'.startSearchCluster = v.startSearchCluster ∧ SameNodes v v' i ∧
      ∃ last, r = some last ∧ ¬ Allocated (fatLink sb flat last) ∧
        (¬ Allocated (fatLink sb flat cluster) → v' = v ∧ last = cluster) ∧
        (Allocated (fatLink sb flat cluster) →
          (v'.nodes i).hintCluster = last ∧ Allocated last) := by
  induction fuel with
  | zero =>
    intro v cluster hrun
    cases hrun
  | succ fuel ih =>
    intro v cluster hrun
    rw [findLastLoop] at hrun
    by_cases hnext : Allocated (fatLink sb flat cluster)
    · rw [if_pos hnext] at hrun
      dsimp only at hrun
      rw [Prog.run_bind_ok _ (readFATEntry_flat hfat _)] at hrun
      obtain ⟨hflat, hstart, hsame, last, hr, hend, hstay, hhint⟩ := ih _ _ hrun
      refine ⟨hflat, hstart, .trans ⟨?_, ?_, fun j hj => ?_⟩ hsame, last, hr, hend,
        fun hnot => absurd hnext hnot, fun _ => ?_⟩
      · rw [Vol.setNode_apply, if_pos rfl]
      · rw [Vol.setNode_apply, if_pos rfl]
      · rw [Vol.setNode_apply, if_neg hj]
      · by_cases hmore : Allocated (fatLink sb flat (fatLink sb flat cluster))
        · exact hhint hmore
        · obtain ⟨rfl, rfl⟩ := hstay hmore
          rw [Vol.setNode_apply, if_pos rfl]
          exact ⟨rfl, hnext⟩
    · rw [if_neg hnext] at hrun
      cases hrun
      exact ⟨rfl, rfl, .refl _ i, cluster, rfl, hnext, fun _ => ⟨rfl, rfl⟩,
        fun h => absurd h hnext⟩

/-- `FindLastCluster` from anywhere: if it goes further than where it begins, the hint is the
last cluster it comes to. -/
theorem findLastCluster_ok (hfat : sb.fatCnt ≠ 0) {v : Vol}
    (hrun : (findLastCluster sb fuel v i).run (flatOp sb.partitionStart) flat =
      .ok (flat', v', r)) :
    flat' = flat ∧ v'.startSearchCluster = v.startSearchCluster ∧ SameNodes v v' i ∧
      (getFirstCluster sb (v.nodes i).dirent = clusterEoc → v' = v) ∧ ∃ last,
      r = some last ∧ (getFirstCluster sb (v.nodes i).dirent ≠ clusterEoc →
        Allocated (fatLink sb flat (walkStart sb (v.nodes i))) →
        (v'.nodes i).hintCluster = last ∧ Allocated last ∧ ¬ Allocated (fatLink sb flat last)) := by
  unfold findLastCluster at hrun
  by_cases heoc : getFirstCluster sb (v.nodes i).dirent = clusterEoc
  · rw [if_pos heoc] at hrun
    cases hrun
    exact ⟨rfl, rfl, .refl _ i, fun _ => rfl, clusterEoc, rfl, fun hne => absurd heoc hne⟩
  · rw [if_neg heoc] at hrun
    dsimp only at hrun
    rw [← walkStart, Prog.run_bind_ok _ (readFATEntry_flat hfat _)] at hrun
    obtain ⟨hflat, hstart, hsame, last, hr, hend, -, hhint⟩ := findLastLoop_ok hfat fuel _ _ hrun
    exact ⟨hflat, hstart, hsame, fun h => absurd h heoc, last, hr, fun _ hnext =>
      ⟨(hhint hnext).1, (hhint hnext).2, hend⟩⟩

end Walk

/-! ## Entries of a FAT32 volume -/

section Fat32

variable {sb : FatSb} {flat flat' : Nat → UInt8}

/-- The bytes of an array after the loop of `WriteFATEntry`: each is as it was, or the one at
its place in the word that is written, wherever the FATs are. -/
theorem writeFATLoop_mixes (ht : sb.fatType = .fat32) (cluster n : Nat) : ∀ f value flat,
    ∃ flat', (writeFATLoop sb cluster n f value).run (flatOp sb.partitionStart) flat =
      .ok (flat', ()) ∧ ∀ a, flat' a = flat a ∨ ∃ k, k < 4 ∧ a % 512 = (cluster + k) % 512 ∧
        flat' a = (leBytes32 (sb.fatType.toFat value)).getD k 0 := by
  induction n with
  | zero => exact fun f value flat => ⟨flat, rfl, fun _ => .inl rfl⟩
  | succ n ih =>
    intro f value flat
    -- one copy: four bytes, at the offset that the cluster has in every FAT
    obtain ⟨flat₁, hround, hbytes₁⟩ : ∃ flat₁,
        (writeFATCopy sb cluster f (sb.fatType.toFat value)).run (flatOp sb.partitionStart) flat =
          .ok (flat₁, ()) ∧ ∀ a, flat₁ a = flat a ∨ ∃ k, k < 4 ∧
            a % 512 = (cluster + k) % 512 ∧
            flat₁ a = (leBytes32 (sb.fatType.toFat value)).getD k 0 := by
      unfold writeFATCopy
      rw [ht]
      refine ⟨_, rfl, fun a => ?_⟩
      have hs := byteOf_lt sb.partitionStart (fatSector sb f cluster) (sectorOffset cluster)
      have hmod : byteOf sb.partitionStart (fatSector sb f cluster) (sectorOffset cluster) % 512 =
          cluster % 512 := by
        show (512 * _ + cluster % 512) % 512 = _
        omega
      have hlen : (leBytes32 (FatType.fat32.toFat value)).length = 4 := rfl
      show ringPatch flat _ (leBytes32 _) a = _ ∨
        ∃ k, k < 4 ∧ _ ∧ ringPatch flat _ (leBytes32 _) a = _
      generalize byteOf sb.partitionStart (fatSector sb f cluster) (sectorOffset cluster) =
        start at *
      unfold ringPatch
      split
      next hin =>
        rw [hlen] at hin
        exact .inr ⟨(a + 2 ^ 41 - start) % 2 ^ 41, hin.2, by omega, rfl⟩
      · exact .inl rfl
    obtain ⟨flat₂, hrest, hbytes₂⟩ := ih (f + 1) (sb.fatType.toFat value) flat₁
    refine ⟨flat₂, ?_, fun a => ?_⟩
    · rw [writeFATLoop, Prog.run_bind_ok _ hround]
      exact hrest
    · -- a byte has its place in the word from the last copy that has written it
      rcases hbytes₂ a with hsame | ⟨k, hk, ha, hbyte⟩
      · rw [hsame]
        exact hbytes₁ a
      · rw [toFat_toFat] at hbyte
        exact .inr ⟨k, hk, ha, hbyte⟩

/-- The values of a FAT32 entry that is free, and of one that is the end of a chain or a mark. -/
theorem fromFat32_cases (x : Nat) :
    (FatType.fat32.fromFat x = clusterFree → x = 0) ∧
      (FatType.fat32.fromFat x = clusterEoc → 0x0ffffff8 ≤ x ∧ x ≤ 0x0fffffff) ∧
      (0x0ffffff7 ≤ x → 0x0ffffff7 ≤ FatType.fat32.fromFat x) := by
  have hmarks : FatType.fat32.eocMin = 0x0ffffff8 ∧ FatType.fat32.eoc = 0x0fffffff ∧
      clusterFree = 0 ∧ clusterBad = 0x0ffffff7 ∧ clusterEoc = 0x0fffffff :=
    ⟨rfl, rfl, rfl, rfl, rfl⟩
  unfold FatType.fromFat
  split
  · omega
  · split <;> omega

/-- No write of a cluster's number makes the entry of this cluster, when it is free, one of the
end of a chain. -/
theorem writeFATEntry_mixes (hl : DataLayout sb) (ht : sb.fatType = .fat32) {c : Nat}
    (hc : InData sb c) (hfree : fatLink sb flat c = clusterFree) (last : Nat) :
    ∃ flat', (writeFATEntry sb last c).run (flatOp sb.partitionStart) flat =
      .ok (flat', some ()) ∧ fatLink sb flat' c ≠ clusterEoc := by
  obtain ⟨flat', hrun, hbytes⟩ := writeFATLoop_mixes ht last sb.fatCnt 0 c flat
  refine ⟨flat', ?_, fun heoc => ?_⟩
  · rw [writeFATEntry, Prog.run_bind_ok _ hrun, if_neg (Nat.ne_of_gt hl.fat_cnt)]
    rfl
  have hmax := hl.numbers
  have hlt := hc.2
  rw [ht] at hmax
  have hallocMax : FatType.fat32.allocMax = 0x0ffffff6 := rfl
  have hvalue : sb.fatType.toFat c = c := by
    rw [ht]
    exact FatType.toFat_of_le (by omega)
  rw [hvalue] at hbytes
  rw [fatLink_eq hl hc.2, ht] at hfree heoc
  have hzero := (fromFat32_cases _).1 hfree
  obtain ⟨hlo, hhi⟩ := (fromFat32_cases _).2.1 heoc
  simp only [entryAt, leWord32_getBytes] at hzero hlo hhi
  -- no byte of the mark is zero, so each of the four has been written
  have hstart : fatStart sb 0 % 512 = 0 := Nat.mul_mod_right ..
  have hwritten : ∀ j, j < 4 → (fatBytes sb flat 0 (c * 4 + j)).toNat = 0 →
      (fatBytes sb flat' 0 (c * 4 + j)).toNat ≠ 0 →
      ∃ k, k < 4 ∧ (c * 4 + j) % 512 = (last + k) % 512 ∧
        fatBytes sb flat' 0 (c * 4 + j) = (leBytes32 c).getD k 0 := by
    intro j _ hold hnew
    rcases hbytes (fatStart sb 0 + (c * 4 + j)) with hsame | ⟨k, hk, ha, hbyte⟩
    · exact absurd (by rw [fatBytes, hsame]; exact hold) hnew
    · exact ⟨k, hk, by omega, hbyte⟩
  have h0 := (fatBytes sb flat' 0 (c * 4)).toNat_lt
  have h1 := (fatBytes sb flat' 0 (c * 4 + 1)).toNat_lt
  have h2 := (fatBytes sb flat' 0 (c * 4 + 2)).toNat_lt
  have h3 := (fatBytes sb flat' 0 (c * 4 + 3)).toNat_lt
  obtain ⟨k₀, hk₀, ha₀, hb₀⟩ := hwritten 0 (by decide) (by rw [Nat.add_zero]; omega)
    (by rw [Nat.add_zero]; omega)
  obtain ⟨k₁, hk₁, ha₁, hb₁⟩ := hwritten 1 (by decide) (by omega) (by omega)
  obtain ⟨k₂, hk₂, ha₂, hb₂⟩ := hwritten 2 (by decide) (by omega) (by omega)
  obtain ⟨k₃, hk₃, ha₃, hb₃⟩ := hwritten 3 (by decide) (by omega) (by omega)
  -- they are next to each other, and so they are the number itself
  obtain ⟨rfl, rfl, rfl, rfl⟩ : k₀ = 0 ∧ k₁ = 1 ∧ k₂ = 2 ∧ k₃ = 3 := by omega
  rw [Nat.add_zero] at hb₀
  rw [hb₀, hb₁, hb₂, hb₃] at hlo
  have hnumber := leWord32_bytes (x := c) (by omega)
  unfold leWord32 at hnumber
  omega

end Fat32

/-! ## The cluster -/

section Append

variable {sb : FatSb} {flat : Nat → UInt8} {v : Vol} {i : Nat} {cs : List Nat}

/-- `FlushDirent` writes the entry of a node, if anything. -/
theorem flushDirent_run (v : Vol) (i : Nat) :
    ∃ flat', (flushDirent v i).run (flatOp sb.partitionStart) flat = .ok (flat', ()) ∧
      ∀ a, ¬ EntryByte sb (v.nodes i) a → flat' a = flat a := by
  unfold flushDirent
  split
  · exact ⟨flat, rfl, fun _ _ => rfl⟩
  · refine ⟨_, rfl, fun a ha => ?_⟩
    have hs := byteOf_lt sb.partitionStart (v.nodes i).direntSector (v.nodes i).direntOffset
    have hlen : (v.nodes i).dirent.toChunk.bytes.length = 32 := (v.nodes i).dirent.length_eq
    unfold EntryByte at ha
    generalize byteOf sb.partitionStart (v.nodes i).direntSector (v.nodes i).direntOffset = start
      at *
    unfold ringPatch
    refine if_neg fun ⟨hlt, hin⟩ => ha ⟨_, hlen ▸ hin, ?_⟩
    omega

theorem flushDirent_outside {flat' : Nat → UInt8} {u : Unit}
    (hrun : (flushDirent v i).run (flatOp sb.partitionStart) flat = .ok (flat', u)) {a : Nat}
    (ha : ¬ EntryByte sb (v.nodes i) a) : flat' a = flat a := by
  obtain ⟨flat₁, hrun₁, hsame⟩ := flushDirent_run v i
  rw [hrun₁] at hrun
  cases hrun
  exact hsame a ha

section Steps

variable {fuel last c : Nat} {flat₁ flat₂ : Nat → UInt8} {v₁ v₂ : Vol}

/-- `AppendCluster` where the search finds nothing. -/
theorem appendCluster_of_none
    (hlast : (findLastCluster sb fuel v i).run (flatOp sb.partitionStart) flat =
      .ok (flat₁, v₁, some last))
    (hfree : (findFreeCluster sb v₁).run (flatOp sb.partitionStart) flat₁ =
      .ok (flat₂, v₂, none)) :
    (appendCluster sb fuel v i).run (flatOp sb.partitionStart) flat = .ok (flat₂, v₂, none) := by
  unfold appendCluster
  rw [Prog.run_bind_ok _ hlast]
  dsimp only
  rw [Prog.run_bind_ok _ hfree]
  rfl

/-- `AppendCluster` with the cluster the search has marked. -/
theorem appendCluster_of_some
    (hlast : (findLastCluster sb fuel v i).run (flatOp sb.partitionStart) flat =
      .ok (flat₁, v₁, some last))
    (hfree : (findFreeCluster sb v₁).run (flatOp sb.partitionStart) flat₁ =
      .ok (flat₂, v₂, some c)) :
    (appendCluster sb fuel v i).run (flatOp sb.partitionStart) flat =
      (if getFirstCluster sb (v₂.nodes i).dirent = clusterEoc then do
        let v₃ := v₂.setNode i { v₂.nodes i with
          dirent := setFirstCluster sb (v₂.nodes i).dirent c }
        flushDirent v₃ i
        return (v₃, some c)
      else do
        let _ ← writeFATEntry sb last c
        return (v₂, some c) : FatM (Vol × Option Nat)).run (flatOp sb.partitionStart) flat₂ := by
  unfold appendCluster
  rw [Prog.run_bind_ok _ hlast]
  dsimp only
  rw [Prog.run_bind_ok _ hfree]

end Steps

/-- `FindLastCluster` does not go on where there is no chain, or no more of it. -/
theorem findLastCluster_stays (hfat : sb.fatCnt ≠ 0)
    (h : getFirstCluster sb (v.nodes i).dirent = clusterEoc ∨
      ¬ Allocated (fatLink sb flat (walkStart sb (v.nodes i)))) :
    ∃ last, (findLastCluster sb 1 v i).run (flatOp sb.partitionStart) flat =
      .ok (flat, v, some last) := by
  unfold findLastCluster
  by_cases heoc : getFirstCluster sb (v.nodes i).dirent = clusterEoc
  · rw [if_pos heoc]
    exact ⟨clusterEoc, rfl⟩
  · rw [if_neg heoc]
    dsimp only
    rw [← walkStart, Prog.run_bind_ok _ (readFATEntry_flat hfat _)]
    dsimp only
    rw [findLastLoop, if_neg (h.resolve_left heoc)]
    exact ⟨walkStart sb (v.nodes i), rfl⟩

/-- The search has found nothing: the node is as it was if and only if the hint is at the end
of the chain already. -/
theorem appended_none {flat' : Nat → UInt8} {v' : Vol} {last : Nat}
    (hhint : getFirstCluster sb (v.nodes i).dirent ≠ clusterEoc →
      Allocated (fatLink sb flat (walkStart sb (v.nodes i))) →
      (v'.nodes i).hintCluster = last ∧ Allocated last ∧ ¬ Allocated (fatLink sb flat last))
    (hok : Appended sb flat v i cs flat' v' none) :
    getFirstCluster sb (v.nodes i).dirent = clusterEoc ∨
      ¬ Allocated (fatLink sb flat (walkStart sb (v.nodes i))) := by
  by_contra hnot
  rw [not_or, not_not] at hnot
  obtain ⟨hnew, hlast, hend⟩ := hhint hnot.1 hnot.2
  -- the walk would have begun where it ends
  rw [hok.2] at hnew
  have hpos : 1 ≤ last := hlast.1
  refine hend ?_
  rw [← hnew]
  have hwalk := hnot.2
  unfold walkStart at hwalk
  rwa [if_pos (by omega)] at hwalk

section Found

variable {d : Nat}

/-- The cluster that is found becomes the first of the node, on a FAT12 or FAT16 volume. -/
theorem appended_first (hl : DataLayout sb) (ht : sb.fatType ≠ .fat32)
    (hstart : v.startSearchCluster ≤ sb.clusterCnt + 2) (h : AppendNode sb flat (v.nodes i) [])
    (hroot : (v.nodes i).isRoot = false)
    (heoc : getFirstCluster sb (v.nodes i).dirent = clusterEoc) (hdata : InData sb d)
    (hfirst : firstFree sb flat (searchOrder sb v.startSearchCluster) = some d) :
    ∃ flat' v', (appendCluster sb 1 v i).run (flatOp sb.partitionStart) flat =
      .ok (flat', v', some d) ∧ Appended sb flat v i [] flat' v' (some d) := by
  obtain ⟨last, hlast⟩ := findLastCluster_stays (Nat.ne_of_gt hl.fat_cnt) (.inl heoc)
  obtain ⟨flat₁, hfree, hs⟩ := findFreeCluster_run hl hstart hfirst
  have hw := FatsWritten.link hl ht hs hdata.2 (.inr (.inr (.inr rfl)))
  obtain ⟨flat₂, hflush, hsame⟩ := @flushDirent_run sb flat₁
    (({ v with startSearchCluster := d } : Vol).setNode i
      { v.nodes i with dirent := setFirstCluster sb (v.nodes i).dirent d }) i
  rw [Vol.setNode_apply, if_pos rfl] at hsame
  have hlink : ∀ c, c < sb.clusterCnt + 2 → fatLink sb flat₂ c = fatLink sb flat₁ c :=
    fun c hc => fatLink_congr hl hc fun a ha => hsame a fun hentry => h.entry a hentry ha
  refine ⟨flat₂, ({ v with startSearchCluster := d } : Vol).setNode i
    { v.nodes i with dirent := setFirstCluster sb (v.nodes i).dirent d }, ?_,
    (mem_of_firstFree hfirst).2, ?_, (hlink d hdata.2).trans hw.self,
    fun c hc hne _ => (hlink c hc).trans (hw.other c hc hne)⟩
  · rw [appendCluster_of_some hlast hfree, if_pos heoc]
    exact (Prog.run_bind_ok _ hflush _).trans rfl
  · rw [chainStart, Vol.setNode_apply, if_pos rfl, if_neg (by rw [hroot]; decide),
      getFirstCluster_setFirstCluster (hdata.fatValue hl)]
    refine ⟨rfl, hdata, ?_⟩
    rw [hlink d hdata.2, hw.self]
    exact show ¬ Allocated clusterEoc by decide

/-- The cluster that is found is linked to the last one of the node. -/
theorem appended_more (hl : DataLayout sb) (ht : sb.fatType ≠ .fat32)
    (hstart : v.startSearchCluster ≤ sb.clusterCnt + 2) (h : AppendNode sb flat (v.nodes i) cs)
    (hroot : (v.nodes i).isRoot = false) (hne : cs ≠ []) (hdata : InData sb d)
    (hfirst : firstFree sb flat (searchOrder sb v.startSearchCluster) = some d) :
    ∃ flat' v', (appendCluster sb (cs.length + 1) v i).run (flatOp sb.partitionStart) flat =
      .ok (flat', v', some d) ∧ Appended sb flat v i cs flat' v' (some d) := by
  obtain ⟨v₁, hlast, hsame, hstart₁, -⟩ := findLastCluster_chain hl h.chain h.hint hroot hne
    (Nat.le_succ cs.length)
  have hdfree := (mem_of_firstFree hfirst).2
  rw [← hstart₁] at hstart hfirst
  obtain ⟨flat₁, hfree, hs⟩ := findFreeCluster_run hl hstart hfirst
  have hw₁ := FatsWritten.link hl ht hs hdata.2 (.inr (.inr (.inr rfl)))
  have hlmem := List.getLast_mem hne
  obtain ⟨flat₂, hwrite, hw₂⟩ := @writeFATEntry_link sb flat₁ _ _ hl ht
    (h.chain.inData _ hlmem).2 (hdata.fatValue hl)
  obtain ⟨hchain, hend, hother⟩ := h.chain.append hne h.nodup h.used hdata hdfree hw₁ hw₂
  refine ⟨flat₂, { v₁ with startSearchCluster := d }, ?_, hdfree, ?_, hend,
    fun c hc hcd hcl => hother c hc hcd fun heq => hcl ?_⟩
  · have hnot := (h.chain.first hl hroot hne).2
    rw [← hsame.dirent] at hnot
    rw [appendCluster_of_some hlast hfree, if_neg hnot]
    exact (Prog.run_bind_ok _ hwrite _).trans rfl
  · show IsChain sb flat₂ (chainStart sb (v₁.nodes i)) _
    rw [hsame.chainStart]
    exact hchain
  · rw [heq, List.getLast?_eq_getLast_of_ne_nil hne]
    rfl

end Found

section Outcome

variable {fuel d : Nat} {flat' : Nat → UInt8} {v' : Vol} {r : Option Nat}

/-- Where the search finds nothing and the node is as it was, the hint was at the end of the
chain already. -/
theorem appendCluster_full (hl : DataLayout sb) (hstart : v.startSearchCluster ≤ sb.clusterCnt + 2)
    (hfirst : firstFree sb flat (searchOrder sb v.startSearchCluster) = none)
    (hrun : (appendCluster sb fuel v i).run (flatOp sb.partitionStart) flat = .ok (flat', v', r))
    (hok : Appended sb flat v i cs flat' v' r) :
    getFirstCluster sb (v.nodes i).dirent = clusterEoc ∨
      ¬ Allocated (fatLink sb flat (walkStart sb (v.nodes i))) := by
  have hrun' := hrun
  unfold appendCluster at hrun'
  obtain ⟨flat₁, ⟨v₁, l⟩, hlast, -⟩ := Prog.ok_of_run_bind _ hrun'
  obtain ⟨rfl, hstart₁, -, -, last, rfl, hhint⟩ :=
    findLastCluster_ok (Nat.ne_of_gt hl.fat_cnt) hlast
  rw [← hstart₁] at hstart hfirst
  obtain ⟨flat₂, hfree, -⟩ := findFreeCluster_run hl hstart hfirst
  rw [appendCluster_of_none hlast hfree] at hrun
  cases hrun
  exact appended_none hhint hok

/-- Where it finds an entry that gets into the chain of the node, this is the entry of a
cluster, the volume is no FAT32 volume and the entry of the node does not say 0. -/
theorem appendCluster_found (hl : DataLayout sb)
    (hstart : v.startSearchCluster ≤ sb.clusterCnt + 2) (h : AppendNode sb flat (v.nodes i) cs)
    (hfirst : firstFree sb flat (searchOrder sb v.startSearchCluster) = some d)
    (hrun : (appendCluster sb fuel v i).run (flatOp sb.partitionStart) flat = .ok (flat', v', r))
    (hok : Appended sb flat v i cs flat' v' r) :
    InData sb d ∧ sb.fatType ≠ .fat32 ∧ getFirstCluster sb (v.nodes i).dirent ≠ 0 := by
  have hdfree := (mem_of_firstFree hfirst).2
  have hrun' := hrun
  unfold appendCluster at hrun'
  obtain ⟨flat₁, ⟨v₁, l⟩, hlast, -⟩ := Prog.ok_of_run_bind _ hrun'
  obtain ⟨rfl, hstart₁, hsame, hstay, last, rfl, -⟩ :=
    findLastCluster_ok (Nat.ne_of_gt hl.fat_cnt) hlast
  rw [← hstart₁] at hstart hfirst
  obtain ⟨flat₂, hfree, hs⟩ := findFreeCluster_run hl hstart hfirst
  rw [appendCluster_of_some hlast hfree] at hrun
  change Prog.run _ (if getFirstCluster sb (v₁.nodes i).dirent = clusterEoc then _ else _) _ = _
    at hrun
  rw [hsame.dirent] at hrun
  by_cases heoc : getFirstCluster sb (v.nodes i).dirent = clusterEoc
  · rw [if_pos heoc] at hrun
    obtain rfl := hstay heoc
    obtain ⟨flat₃, _, hflush, hret⟩ := Prog.ok_of_run_bind _ hrun
    cases hret
    obtain ⟨-, hchain, hend, -⟩ := hok
    have hdata := hchain.inData d (List.mem_append_right _ (List.mem_singleton_self d))
    refine ⟨hdata, fun ht => ?_, by rw [heoc]; decide⟩
    -- the entry of the node is not inside a FAT, and the mark is not where it is read
    have hfats : ∀ a, InFats sb a → flat' a = flat₂ a := by
      refine fun a ha => flushDirent_outside hflush fun hentry => h.entry a ?_ ha
      rwa [Vol.setNode_apply, if_pos rfl] at hentry
    rw [fatLink_congr hl hdata.2 hfats, FatsWritten.link32 hl ht hs hdata, hdfree] at hend
    exact absurd hend (by decide)
  · rw [if_neg heoc] at hrun
    obtain ⟨flat₃, _, hwrite, hret⟩ := Prog.ok_of_run_bind _ hrun
    cases hret
    obtain ⟨-, hchain, hend, -⟩ := hok
    have hdata := hchain.inData d (List.mem_append_right _ (List.mem_singleton_self d))
    have htype : sb.fatType ≠ .fat32 := by
      intro ht
      obtain ⟨_, hwrite', hnot⟩ := writeFATEntry_mixes hl ht hdata
        ((FatsWritten.link32 hl ht hs hdata).trans hdfree) last
      rw [hwrite'] at hwrite
      cases hwrite
      exact hnot hend
    refine ⟨hdata, htype, fun hzero => ?_⟩
    -- the chain of the node still begins at 0
    have hbegin := hchain.begin (by simp)
    have hroot : ¬ (v.nodes i).isRoot = true := fun hroot => htype (h.root hroot).1
    change InData sb (chainStart sb (v₁.nodes i)) at hbegin
    rw [hsame.chainStart, chainStart, if_neg hroot, hzero] at hbegin
    exact absurd hbegin.1 (by decide)

end Outcome

/-- `AppendCluster` does what it should if and only if the search finds no free entry and the
hint is at the end of the chain already, or it finds a cluster, on a FAT12 or FAT16 volume,
and the entry of the node does not say 0. -/
theorem appendCluster_iff (hl : DataLayout sb) {c : Cache} (hc : Stands c flat)
    (hstart : v.startSearchCluster ≤ sb.clusterCnt + 2)
    (h : AppendNode sb flat (v.nodes i) cs) :
    (∃ fuel, Yields sb.partitionStart (appendCluster sb fuel v i) c fun flat' r =>
        Appended sb flat v i cs flat' r.1 r.2) ↔
      ((∀ d ∈ searchOrder sb v.startSearchCluster, fatLink sb flat d ≠ clusterFree) ∧
        (getFirstCluster sb (v.nodes i).dirent = clusterEoc ∨
          ¬ Allocated (fatLink sb flat (walkStart sb (v.nodes i))))) ∨
      ((∃ d ∈ searchOrder sb v.startSearchCluster, fatLink sb flat d = clusterFree) ∧
        (∀ d, d < 2 → v.startSearchCluster ≤ d → d < sb.clusterCnt →
          fatLink sb flat d ≠ clusterFree) ∧
        sb.fatType ≠ .fat32 ∧ getFirstCluster sb (v.nodes i).dirent ≠ 0) := by
  simp only [yields_iff hc]
  constructor
  · rintro ⟨fuel, flat', ⟨v', r⟩, hrun, hok⟩
    cases hfirst : firstFree sb flat (searchOrder sb v.startSearchCluster) with
    -- a search that finds none is right where the walk stays where it is
    | none => exact .inl ⟨firstFree_none.mp hfirst, appendCluster_full hl hstart hfirst hrun hok⟩
    | some d =>
      obtain ⟨hdata, hrest⟩ := appendCluster_found hl hstart h hfirst hrun hok
      refine .inr ⟨⟨d, mem_of_firstFree hfirst⟩, fun e he hse hec => ?_, hrest⟩
      -- an entry in front of the clusters would have come first
      exact searchOrder_first hfirst hse hec (by have := hdata.1; omega)
  · rintro (⟨hnone, hwalk⟩ | ⟨⟨e, hmem, hefree⟩, hfront, ht, hzero⟩)
    · -- no cluster is taken, and no hint is set
      obtain ⟨last, hlast⟩ := findLastCluster_stays (Nat.ne_of_gt hl.fat_cnt) hwalk
      obtain ⟨flat', hfree, hs⟩ := findFreeCluster_run hl hstart (firstFree_none.mpr hnone)
      obtain rfl : flat' = flat := hs
      exact ⟨1, _, _, appendCluster_of_none hlast hfree, fun _ _ => rfl, rfl⟩
    · have hroot : (v.nodes i).isRoot = false := by
        rw [← Bool.not_eq_true]
        exact fun hroot => ht (h.root hroot).1
      cases hfirst : firstFree sb flat (searchOrder sb v.startSearchCluster) with
      | none => exact absurd hefree (firstFree_none.mp hfirst e hmem)
      | some d =>
        obtain ⟨hdmem, hdfree⟩ := mem_of_firstFree hfirst
        -- the cluster found is none of the two reserved ones
        have hmin : 2 ≤ d := by
          by_contra hlt
          have hd := mem_searchOrder.mp hdmem
          exact hfront d (by omega) (by omega) (by omega) hdfree
        have hdata := inData_of_searchOrder hstart hdmem hmin
        obtain ⟨flat', v', hrun, hok⟩ : ∃ flat' v', (appendCluster sb (cs.length + 1) v i).run
            (flatOp sb.partitionStart) flat = .ok (flat', v', some d) ∧
            Appended sb flat v i cs flat' v' (some d) := by
          -- the first cluster of a file goes to its entry, any other to the last link
          by_cases hne : cs = []
          · subst hne
            exact appended_first hl ht hstart h hroot
              ((h.empty hroot rfl).resolve_right hzero) hdata hfirst
          · exact appended_more hl ht hstart h hroot hne hdata hfirst
        exact ⟨_, flat', (v', some d), hrun, hok⟩

end Append

/-! ## A volume with one file -/

/-- The first entry of the root directory is not inside a FAT. -/
theorem oneFile_entry (a : Nat) (h : EntryByte sampleFat16 oneFileNode a) :
    ¬ InFats sampleFat16 a := by
  rintro ⟨f, hf, -, hhi⟩
  obtain ⟨k, hk, rfl⟩ := h
  have hbyte : byteOf sampleFat16.partitionStart oneFileNode.direntSector
    oneFileNode.direntOffset = 11264 := rfl
  have hstart : fatStart sampleFat16 f = 512 * (2 + f * 20) := by
    show 512 * (1 + 1 + f * 20) = _
    omega
  have hsz : sampleFat16.fatSz = 20 := rfl
  have hcnt : sampleFat16.fatCnt = 1 := rfl
  omega

/-- `appendCluster_iff` for the file. -/
theorem appendCluster_iff_sample : ∃ c, createCache oneFileDev 1 512 true 5 = some c ∧
    ∃ fuel, Yields 1 (appendCluster sampleFat16 fuel oneFileVol 1) c fun flat' r =>
      Appended sampleFat16 oneFileFlat oneFileVol 1 [2, 3] flat' r.1 r.2 := by
  have hcreate : createCache oneFileDev 1 512 true 5 = some _ := rfl
  have hfile := oneFile_ok.file ()
  have hnode : AppendNode sampleFat16 oneFileFlat (oneFileVol.nodes 1) [2, 3] :=
    ⟨hfile.chain, hfile.nodup, hfile.used, hfile.hint, fun hroot => (nomatch hroot),
      fun _ hnil => (nomatch hnil), oneFile_entry⟩
  refine ⟨_, hcreate, (appendCluster_iff sampleFat16_data (createCache_stands hcreate).1
    (Nat.zero_le _) hnode).mpr (.inr ⟨⟨4, ?_, ?_⟩, ?_, ?_, ?_⟩)⟩
  · exact mem_searchOrder.mpr (.inl ⟨Nat.zero_le 4, show 4 < 4978 by decide⟩)
  · decide
  · exact fun d hd _ _ => oneFile_ok.reserved d hd
  · decide
  · decide

/-- The nodes with that of a file without a first cluster. -/
def emptyFileVol : Vol := initVol.addNode { oneFileNode with dirent := .zeroed }

/-- The cluster that is found for it is linked to the first entry of the FAT. -/
theorem appendCluster_not_appended : ∃ c, createCache oneFileDev 1 512 true 5 = some c ∧
    AppendNode sampleFat16 oneFileFlat (emptyFileVol.nodes 1) [] ∧
    ¬ ∃ fuel, Yields 1 (appendCluster sampleFat16 fuel emptyFileVol 1) c fun flat' r =>
      Appended sampleFat16 oneFileFlat emptyFileVol 1 [] flat' r.1 r.2 := by
  have hcreate : createCache oneFileDev 1 512 true 5 = some _ := rfl
  have hzero : getFirstCluster sampleFat16 (emptyFileVol.nodes 1).dirent = 0 := by decide
  have hnode : AppendNode sampleFat16 oneFileFlat (emptyFileVol.nodes 1) [] :=
    ⟨show ¬ Allocated (chainStart sampleFat16 (emptyFileVol.nodes 1)) by decide, List.nodup_nil,
      fun c hc => (nomatch hc), .inl rfl, fun hroot => (nomatch hroot), fun _ _ => .inr hzero,
      oneFile_entry⟩
  refine ⟨_, hcreate, hnode, ?_⟩
  rintro ⟨fuel, hyields⟩
  rw [yields_iff (createCache_stands hcreate).1] at hyields
  obtain ⟨flat', ⟨v', r⟩, hrun, hok⟩ := hyields
  have hfirst : firstFree sampleFat16 oneFileFlat
      (searchOrder sampleFat16 emptyFileVol.startSearchCluster) = some 4 := by
    decide +kernel
  have hfound := appendCluster_found sampleFat16_data (Nat.zero_le _) hnode hfirst hrun hok
  exact hfound.2.2 hzero

end Cheviot.Fatfs
