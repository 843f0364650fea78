import Cheviot.Fatfs.Data

/-!
# The search for a free cluster

`FindFreeCluster` goes through two ranges: from where it left off to the number of the
clusters, and from 2 to where it left off. The numbers of the clusters begin with 2, so
that the last two are behind the first range, and a search that begins at zero looks at
the first two entries, which are no clusters.

* `searchOrder`, `firstFree` — the entries it looks at, and the first free one of them.
* `findFreeCluster_run` — this one is marked, on a volume of any type.
* `findFreeCluster_iff` — when this is what a search for a free cluster should do.
-/

namespace Cheviot.Fatfs

open Cheviot.Bytes

/-! ## One entry -/

/-- One entry of the FAT has another number, and nothing else is changed. -/
structure LinkWritten (sb : FatSb) (flat flat' : Nat → UInt8) (cluster value : Nat) : Prop where
  self : fatLink sb flat' cluster = value
  other : ∀ c, c < sb.clusterCnt + 2 → c ≠ cluster → fatLink sb flat' c = fatLink sb flat c
  outside : ∀ a, ¬ InFats sb a → flat' a = flat a

section Entry

variable {sb : FatSb} {flat flat' : Nat → UInt8} {cluster value : Nat}

/-- What is written to the FATs of a FAT12 or FAT16 volume is one link. -/
theorem FatsWritten.link (hl : DataLayout sb) (ht : sb.fatType ≠ .fat32)
    (hw : FatsWritten sb flat flat' cluster (sb.fatType.toFat value))
    (hlt : cluster < sb.clusterCnt + 2) (hv : FatValue sb.fatType value) :
    LinkWritten sb flat flat' cluster value := by
  have hin := hl.entries cluster hlt
  refine ⟨?_, fun c hc hne => ?_, fun a ha => hw.outside a fun f hf => ?_⟩
  · rw [fatLink_eq hl hlt, hw.entryAt hl.fat_cnt hin, entryAt_writeEntry_self ht hv.toFat_le,
      hv.fromFat_toFat]
  · rw [fatLink_eq hl hc, fatLink_eq hl hc, hw.entryAt hl.fat_cnt (hl.entries c hc),
      entryAt_writeEntry_ne ht hne]
  · by_contra hnot
    exact ha ⟨f, hf, by omega, by omega⟩

/-- `WriteFATEntry`, by the links. -/
theorem writeFATEntry_link (hl : DataLayout sb) (ht : sb.fatType ≠ .fat32)
    (hlt : cluster < sb.clusterCnt + 2) (hv : FatValue sb.fatType value) :
    ∃ flat', (writeFATEntry sb cluster value).run (flatOp sb.partitionStart) flat =
      .ok (flat', some ()) ∧ LinkWritten sb flat flat' cluster value := by
  obtain ⟨flat', hrun, hw⟩ := writeFATEntry_run hl.toFatLayout (hl.entries cluster hlt) value flat
  exact ⟨flat', hrun, hw.link hl ht hlt hv⟩

/-- What is written for a cluster on a FAT32 volume is not in the entry of another one. -/
def MarkMisses (cluster other : Nat) : Prop := cluster + 4 ≤ other * 4 ∨ other * 4 + 4 ≤ cluster

/-- On a FAT32 volume what is written for a cluster leaves the entries it misses. -/
theorem FatsWritten.link_of_misses (hl : DataLayout sb) (ht : sb.fatType = .fat32)
    {other : Nat} (hw : FatsWritten sb flat flat' cluster value) (h : InData sb other)
    (hmiss : MarkMisses cluster other) :
    fatLink sb flat' other = fatLink sb flat other := by
  have hlen : (leBytes32 value).length = 4 := rfl
  unfold MarkMisses at hmiss
  rw [fatLink_eq hl h.2, fatLink_eq hl h.2, hw.entryAt hl.fat_cnt (h.inside hl), ht]
  simp only [Fatfs.entryAt, writeEntry, writeOffset, entryWord, entryBytes, leWord32_getBytes]
  rw [stBytes_apply_ne (by omega), stBytes_apply_ne (by omega), stBytes_apply_ne (by omega),
    stBytes_apply_ne (by omega)]

/-- A write to a FAT32 volume leaves the link of the cluster it is for as it was. -/
theorem FatsWritten.link32 (hl : DataLayout sb) (ht : sb.fatType = .fat32)
    (hw : FatsWritten sb flat flat' cluster value) (h : InData sb cluster) :
    fatLink sb flat' cluster = fatLink sb flat cluster := by
  have hmin := h.1
  exact hw.link_of_misses hl ht h (.inl (by omega))

end Entry

/-! ## The entries of a search -/

/-- The entries a search looks at, from where the last one has left off. -/
def searchOrder (sb : FatSb) (start : Nat) : List Nat :=
  List.range' start (sb.clusterCnt - start) ++ List.range' 2 (start - 2)

/-- The first free entry of a list. -/
def firstFree (sb : FatSb) (flat : Nat → UInt8) (l : List Nat) : Option Nat :=
  l.find? fun c => fatLink sb flat c = clusterFree

section Search

variable {sb : FatSb} {flat flat' : Nat → UInt8} {start c : Nat} {l : List Nat}

theorem mem_searchOrder : c ∈ searchOrder sb start ↔
    (start ≤ c ∧ c < sb.clusterCnt) ∨ (2 ≤ c ∧ c < start) := by
  rw [searchOrder, List.mem_append, List.mem_range'_1, List.mem_range'_1]
  omega

theorem firstFree_none : firstFree sb flat l = none ↔ ∀ c ∈ l, fatLink sb flat c ≠ clusterFree := by
  rw [firstFree, List.find?_eq_none]
  simp only [decide_eq_true_eq, ne_eq]

theorem mem_of_firstFree (h : firstFree sb flat l = some c) :
    c ∈ l ∧ fatLink sb flat c = clusterFree := by
  have hfree := List.find?_some h
  exact ⟨List.mem_of_find?_eq_some h, of_decide_eq_true hfree⟩

theorem firstFree_cons : firstFree sb flat (c :: l) =
    if fatLink sb flat c = clusterFree then some c else firstFree sb flat l := by
  rw [firstFree, List.find?_cons]
  split
  next heq => rw [if_pos (of_decide_eq_true heq)]
  next heq => rw [if_neg (of_decide_eq_false heq), firstFree]

theorem firstFree_append (l₂ : List Nat) : firstFree sb flat (l ++ l₂) =
    (firstFree sb flat l).or (firstFree sb flat l₂) :=
  List.find?_append

/-- No entry of the first range in front of the one that is found is free. -/
theorem searchOrder_first (h : firstFree sb flat (searchOrder sb start) = some c) {d : Nat}
    (hd : start ≤ d) (hlt : d < sb.clusterCnt) (hdc : d < c) : fatLink sb flat d ≠ clusterFree := by
  intro hfree
  rw [searchOrder, firstFree_append] at h
  cases hfirst : firstFree sb flat (List.range' start (sb.clusterCnt - start)) with
  | none =>
    refine firstFree_none.mp hfirst d ?_ hfree
    exact List.mem_range'_1.mpr ⟨hd, by omega⟩
  | some e =>
    rw [hfirst, Option.some_or, Option.some.injEq] at h
    subst h
    rw [firstFree, List.find?_range'_eq_some] at hfirst
    have hnot := hfirst.2.2 d hd hdc
    rw [hfree] at hnot
    exact absurd hnot (by decide)

/-- What a search does: it marks the first free entry of those it looks at. -/
def Searched (sb : FatSb) (flat flat' : Nat → UInt8) : Option Nat → Prop
  | none => flat' = flat
  | some c => FatsWritten sb flat flat' c (sb.fatType.toFat clusterEoc)

/-- A loop of `FindFreeCluster` goes through a range. -/
theorem findFreeLoop_run (hl : DataLayout sb) (n : Nat) : ∀ cluster,
    cluster + n ≤ sb.clusterCnt + 2 → ∃ flat',
      (findFreeLoop sb n cluster).run (flatOp sb.partitionStart) flat =
        .ok (flat', firstFree sb flat (List.range' cluster n)) ∧
      Searched sb flat flat' (firstFree sb flat (List.range' cluster n)) := by
  induction n with
  | zero => exact fun _ _ => ⟨flat, rfl, rfl⟩
  | succ n ih =>
    intro cluster hend
    rw [findFreeLoop, Prog.run_bind_ok _ (readFATEntry_flat (Nat.ne_of_gt hl.fat_cnt) cluster),
      List.range'_succ, firstFree_cons]
    by_cases hfree : fatLink sb flat cluster = clusterFree
    · obtain ⟨flat', hrun, hw⟩ := writeFATEntry_run hl.toFatLayout
        (hl.entries cluster (by omega)) clusterEoc flat
      rw [if_pos hfree, if_pos (congrArg some hfree), Prog.run_bind_ok _ hrun]
      exact ⟨flat', rfl, hw⟩
    · rw [if_neg hfree, if_neg fun heq => hfree (Option.some.inj heq)]
      exact ih (cluster + 1) (by omega)

/-- `FindFreeCluster` marks the first free entry in its order, and the next search starts
there. -/
theorem findFreeCluster_run (hl : DataLayout sb) {v : Vol}
    (hstart : v.startSearchCluster ≤ sb.clusterCnt + 2) {r : Option Nat}
    (hr : firstFree sb flat (searchOrder sb v.startSearchCluster) = r) :
    ∃ flat', (findFreeCluster sb v).run (flatOp sb.partitionStart) flat =
        .ok (flat', { v with startSearchCluster := r.getD v.startSearchCluster }, r) ∧
      Searched sb flat flat' r := by
  rw [searchOrder, firstFree_append] at hr
  obtain ⟨flat₁, hrun₁, hs₁⟩ : ∃ flat',
      (findFreeLoop sb (sb.clusterCnt - v.startSearchCluster) v.startSearchCluster).run
        (flatOp sb.partitionStart) flat = .ok (flat', firstFree sb flat
          (List.range' v.startSearchCluster (sb.clusterCnt - v.startSearchCluster))) ∧
      Searched sb flat flat' (firstFree sb flat
        (List.range' v.startSearchCluster (sb.clusterCnt - v.startSearchCluster))) :=
    findFreeLoop_run hl _ _ (by omega)
  unfold findFreeCluster
  dsimp only
  rw [Prog.run_bind_ok _ hrun₁]
  cases hfirst : firstFree sb flat
      (List.range' v.startSearchCluster (sb.clusterCnt - v.startSearchCluster)) with
  | some c =>
    rw [hfirst] at hr hs₁
    subst hr
    exact ⟨flat₁, rfl, hs₁⟩
  | none =>
    rw [hfirst, Option.none_or] at hr
    rw [hfirst] at hs₁
    obtain rfl : flat₁ = flat := hs₁
    obtain ⟨flat₂, hrun₂, hs₂⟩ := @findFreeLoop_run sb flat₁ hl (v.startSearchCluster - 2) 2
      (by omega)
    dsimp only
    rw [Prog.run_bind_ok _ hrun₂, hr]
    rw [hr] at hs₂
    cases r with
    | some c => exact ⟨flat₂, rfl, hs₂⟩
    | none => exact ⟨flat₂, rfl, hs₂⟩

/-- An entry it looks at is that of a cluster, but for the first two. -/
theorem inData_of_searchOrder (hstart : start ≤ sb.clusterCnt + 2)
    (hc : c ∈ searchOrder sb start) (hmin : 2 ≤ c) : InData sb c := by
  rw [mem_searchOrder] at hc
  exact ⟨hmin, by omega⟩

/-- The searches after it begin inside the FAT again, and none of them behind the clusters. -/
theorem findFreeCluster_start (hl : DataLayout sb) {v v' : Vol} {r : Option Nat}
    (hstart : v.startSearchCluster ≤ sb.clusterCnt + 2)
    (hrun : (findFreeCluster sb v).run (flatOp sb.partitionStart) flat = .ok (flat', v', r)) :
    v'.startSearchCluster ≤ max v.startSearchCluster sb.clusterCnt := by
  obtain ⟨_, hrun', -⟩ := findFreeCluster_run (v := v) hl hstart rfl
  rw [hrun', Except.ok.injEq, Prod.mk.injEq, Prod.mk.injEq] at hrun
  obtain ⟨-, rfl, -⟩ := hrun
  cases hfirst : firstFree sb flat (searchOrder sb v.startSearchCluster) with
  | none => exact Nat.le_max_left ..
  | some c =>
    have hmem := mem_searchOrder.mp (mem_of_firstFree hfirst).1
    show c ≤ _
    omega

/-- What a search for a free cluster should do: it finds one exactly where there is one, and
marks no other entry but this. -/
def FindsFree (sb : FatSb) (flat flat' : Nat → UInt8) : Option Nat → Prop
  | none => (∀ c, InData sb c → fatLink sb flat c ≠ clusterFree) ∧ flat' = flat
  | some c => (InData sb c ∧ fatLink sb flat c = clusterFree) ∧
    LinkWritten sb flat flat' c clusterEoc

/-- `FindFreeCluster` does what a search should if and only if it comes by no free entry in front
of the clusters, and there either is no free cluster at all, or the volume is no FAT32 volume and
one of the free clusters is not behind both of its ranges. -/
theorem findFreeCluster_iff (hl : DataLayout sb) {c : Cache} (hc : Stands c flat) {v : Vol}
    (hstart : v.startSearchCluster ≤ sb.clusterCnt + 2) :
    Yields sb.partitionStart (findFreeCluster sb v) c
        (fun flat' r => FindsFree sb flat flat' r.2) ↔
      (∀ c, c < 2 → v.startSearchCluster ≤ c → c < sb.clusterCnt →
        fatLink sb flat c ≠ clusterFree) ∧
      ((∀ c, InData sb c → fatLink sb flat c ≠ clusterFree) ∨
        sb.fatType ≠ .fat32 ∧ ∃ c, 2 ≤ c ∧ c < max v.startSearchCluster sb.clusterCnt ∧
          fatLink sb flat c = clusterFree) := by
  rw [yields_iff hc]
  obtain ⟨flat₁, hrun₁, hs₁⟩ := @findFreeCluster_run sb flat hl v hstart _ rfl
  constructor
  · rintro ⟨flat', r, hrun, hok⟩
    rw [hrun₁, Except.ok.injEq, Prod.mk.injEq] at hrun
    obtain ⟨rfl, rfl⟩ := hrun
    dsimp only at hok
    cases hfirst : firstFree sb flat (searchOrder sb v.startSearchCluster) with
    | none =>
      rw [hfirst] at hok
      have hnone := firstFree_none.mp hfirst
      exact ⟨fun c _ hc hlt => hnone c (mem_searchOrder.mpr (.inl ⟨hc, hlt⟩)), .inl hok.1⟩
    | some c =>
      rw [hfirst] at hok hs₁
      obtain ⟨⟨hc, hfree⟩, hw⟩ := hok
      have hmem := mem_searchOrder.mp (mem_of_firstFree hfirst).1
      have hmin := hc.1
      refine ⟨?_, .inr ⟨fun ht => ?_, c, hmin, by omega, hfree⟩⟩
      · -- an entry in front of the clusters would have come first
        intro d hd hsd hdc
        exact searchOrder_first hfirst hsd hdc (by omega)
      · have hself := hw.self
        rw [FatsWritten.link32 hl ht hs₁ hc, hfree] at hself
        exact absurd hself (by decide)
  · rintro ⟨hfront, hback⟩
    refine ⟨flat₁, _, hrun₁, ?_⟩
    dsimp only
    cases hfirst : firstFree sb flat (searchOrder sb v.startSearchCluster) with
    | none =>
      rw [hfirst] at hs₁
      refine ⟨fun c hc hfree => ?_, hs₁⟩
      have hnone := firstFree_none.mp hfirst
      rcases hback with hall | ⟨-, d, hmin, hlt, hdfree⟩
      · exact hall c hc hfree
      · exact hnone d (mem_searchOrder.mpr (by omega)) hdfree
    | some c =>
      rw [hfirst] at hs₁
      obtain ⟨hmem, hfree⟩ := mem_of_firstFree hfirst
      have hmin : 2 ≤ c := by
        by_contra hlt
        have hc := mem_searchOrder.mp hmem
        exact hfront c (by omega) (by omega) (by omega) hfree
      have hc := inData_of_searchOrder hstart hmem hmin
      rcases hback with hall | ⟨ht, -⟩
      · exact absurd hfree (hall c hc)
      · exact ⟨⟨hc, hfree⟩, FatsWritten.link hl ht hs₁ hc.2 (.inr (.inr (.inr rfl)))⟩

end Search

/-- `findFreeCluster_iff` on an empty volume. -/
theorem findFreeCluster_iff_sample : ∃ c, createCache (fun _ _ => 0) 1 512 true 5 = some c ∧
    Yields 1 (findFreeCluster sampleFat16 { initVol with startSearchCluster := 2 }) c
      (fun flat' r => FindsFree sampleFat16 (fun _ => 0) flat' r.2) := by
  have hcreate : createCache (fun _ _ => 0) 1 512 true 5 = some _ := rfl
  refine ⟨_, hcreate, (findFreeCluster_iff sampleFat16_data (createCache_stands hcreate).1
    (show 2 ≤ 4980 by decide)).mpr ⟨?_, .inr ⟨?_, 2, ?_⟩⟩⟩
  · exact fun c hc hstart => absurd hstart (Nat.not_le_of_lt hc)
  · decide
  · decide

/-- A device whose clusters are all in use but the one before the last, number 4978 of 2 to
4979. -/
def almostFullDev (block : Nat) : Buf := fun i =>
  if block = 21 ∧ (i = 228 ∨ i = 229) then 0 else 0xff

/-- The bytes a cache of it stands for. -/
def almostFullFlat (a : Nat) : UInt8 := almostFullDev (a / 512) (a % 512)

theorem almostFullFlat_link {c : Nat} (hlt : c < 4978) :
    fatLink sampleFat16 almostFullFlat c = clusterEoc := by
  have hbyte : ∀ a, a < 10980 → almostFullFlat a = 0xff := by
    intro a ha
    unfold almostFullFlat almostFullDev
    rw [if_neg (by omega)]
  have hin : c < sampleFat16.clusterCnt + 2 := show c < 4980 by omega
  have hbytes : getBytes (fatBytes sampleFat16 almostFullFlat 0) (c * 2) 2 = [0xff, 0xff] := by
    show [almostFullFlat (1024 + (c * 2 + 0)), almostFullFlat (1024 + (c * 2 + 1))] = [0xff, 0xff]
    rw [hbyte _ (by omega), hbyte _ (by omega)]
  rw [fatLink_eq sampleFat16_data hin]
  show FatType.fat16.fromFat (leWord16 (getBytes _ (c * 2) 2)) = clusterEoc
  rw [hbytes]
  decide

/-- The search does not come by this cluster. -/
theorem findFreeCluster_misses : ∃ c, createCache almostFullDev 1 512 true 5 = some c ∧
    ¬ Yields 1 (findFreeCluster sampleFat16 initVol) c
      (fun flat' r => FindsFree sampleFat16 almostFullFlat flat' r.2) := by
  have hcreate : createCache almostFullDev 1 512 true 5 = some _ := rfl
  refine ⟨_, hcreate, fun hyields => ?_⟩
  rw [yields_iff (show Stands _ almostFullFlat from (createCache_stands hcreate).1)] at hyields
  obtain ⟨flat', r, hrun, hok⟩ := hyields
  have hfirst : firstFree sampleFat16 almostFullFlat (searchOrder sampleFat16 0) = none := by
    apply firstFree_none.mpr
    intro c hc
    have hlt : c < 4978 := by
      rcases mem_searchOrder.mp hc with ⟨-, hlt⟩ | ⟨-, hlt⟩
      · exact hlt
      · exact absurd hlt (Nat.not_lt_zero c)
    rw [almostFullFlat_link hlt]
    decide
  obtain ⟨flat₁, hrun₁, -⟩ := @findFreeCluster_run _ almostFullFlat sampleFat16_data initVol
    (Nat.zero_le _) _ hfirst
  have hpart : sampleFat16.partitionStart = 1 := rfl
  rw [hpart, hrun, Except.ok.injEq, Prod.mk.injEq] at hrun₁
  obtain ⟨-, rfl⟩ := hrun₁
  exact hok.1 4978 (by decide) (by decide +kernel)

end Cheviot.Fatfs
