import Cheviot.Fatfs.Search
import Mathlib.Data.Finset.Card
import Mathlib.Order.Interval.Finset.Nat

/-!
# Appending a cluster to a file

`AppendCluster` walks to the end of the chain, marks a free cluster as the end of one and
links it to the last cluster. On a FAT12 or FAT16 volume this is all it does.

* `FileAt`, `FileState` — a file with its clusters, in a volume in order.
* `freeSet` — the clusters the search can find.
* `appendCluster_flat` — the file has a free cluster more.
-/

namespace Cheviot.Fatfs

open Cheviot.Bytes Cheviot.Segments

/-! ## Files and free clusters -/

section Files

variable (sb : FatSb) (flat : Nat → UInt8)

/-- The clusters of a file: those of its chain, each once, with room for its bytes. None of
them is marked free. -/
structure FileAt (node : FatNode) (cs : List Nat) : Prop where
  chain : IsChain sb flat (chainStart sb node) cs
  nodup : cs.Nodup
  used : ∀ c ∈ cs, fatLink sb flat c ≠ clusterFree
  hint : node.hintCluster = 0 ∨ node.hintCluster ∈ cs
  size : node.dirent.size ≤ cs.length * sb.clusterSize

/-- The first two entries of the FAT are no clusters, and not free. -/
def Reserved : Prop := ∀ c, c < 2 → fatLink sb flat c ≠ clusterFree

/-- The node `i` is that of a file, on a volume that can be searched for free clusters. -/
structure FileState (v : Vol) (i : Nat) (cs : List Nat) : Prop
    extends FileAt sb flat (v.nodes i) cs where
  start : v.startSearchCluster ≤ sb.clusterCnt
  reserved : Reserved sb flat

/-- The free clusters the search comes by: it ends in front of the last two. -/
def freeSet : Finset Nat :=
  (Finset.range sb.clusterCnt).filter fun c => 2 ≤ c ∧ fatLink sb flat c = clusterFree

variable {sb} {flat} {c : Nat}

theorem mem_freeSet : c ∈ freeSet sb flat ↔
    c < sb.clusterCnt ∧ 2 ≤ c ∧ fatLink sb flat c = clusterFree := by
  rw [freeSet, Finset.mem_filter, Finset.mem_range]

theorem inData_of_mem_freeSet (h : c ∈ freeSet sb flat) : InData sb c := by
  obtain ⟨hlt, hmin, -⟩ := mem_freeSet.mp h
  exact ⟨hmin, by omega⟩

/-- A file has no more clusters than there are. -/
theorem length_le_clusterCnt {cs : List Nat} (hnodup : cs.Nodup) (hdata : ∀ c ∈ cs, InData sb c) :
    cs.length ≤ sb.clusterCnt := by
  have hsub : cs.toFinset ⊆ Finset.Ico 2 (sb.clusterCnt + 2) := by
    intro c hc
    rw [Finset.mem_Ico]
    exact hdata c (List.mem_toFinset.mp hc)
  have hcard := Finset.card_le_card hsub
  rwa [List.toFinset_card_of_nodup hnodup, Nat.card_Ico, Nat.add_sub_cancel] at hcard

end Files

section Append

variable {sb : FatSb} {flat : Nat → UInt8} {fuel : Nat}

/-- The search finds the first free cluster of a range, if there is one. -/
theorem findFreeLoop_flat (hl : DataLayout sb) (ht : sb.fatType ≠ .fat32) (n cluster : Nat)
    (hend : cluster + n ≤ sb.clusterCnt + 2) :
    (∃ c flat', cluster ≤ c ∧ c < cluster + n ∧ fatLink sb flat c = clusterFree ∧
      (findFreeLoop sb n cluster).run (flatOp sb.partitionStart) flat = .ok (flat', some c) ∧
      LinkWritten sb flat flat' c clusterEoc) ∨
    ((∀ c, cluster ≤ c → c < cluster + n → fatLink sb flat c ≠ clusterFree) ∧
      (findFreeLoop sb n cluster).run (flatOp sb.partitionStart) flat = .ok (flat, none)) := by
  obtain ⟨flat', hrun, hs⟩ := @findFreeLoop_run sb flat hl n cluster hend
  cases hfirst : firstFree sb flat (List.range' cluster n) with
  | some c =>
    rw [hfirst] at hrun hs
    obtain ⟨hmem, hfree⟩ := mem_of_firstFree hfirst
    rw [List.mem_range'_1] at hmem
    refine .inl ⟨c, flat', hmem.1, hmem.2, hfree, hrun, ?_⟩
    exact FatsWritten.link hl ht hs (by omega) (.inr (.inr (.inr rfl)))
  | none =>
    rw [hfirst] at hrun hs
    obtain rfl : flat' = flat := hs
    refine .inr ⟨fun c hle hlt => ?_, hrun⟩
    exact firstFree_none.mp hfirst c (List.mem_range'_1.mpr ⟨hle, hlt⟩)

/-- `FindFreeCluster` finds a free cluster where there is one in front of the last two. -/
theorem findFreeCluster_flat (hl : DataLayout sb) (ht : sb.fatType ≠ .fat32) {v : Vol}
    (hstart : v.startSearchCluster ≤ sb.clusterCnt) (hres : Reserved sb flat)
    (hfree : (freeSet sb flat).Nonempty) :
    ∃ c flat', c ∈ freeSet sb flat ∧
      (findFreeCluster sb v).run (flatOp sb.partitionStart) flat =
        .ok (flat', { v with startSearchCluster := c }, some c) ∧
      LinkWritten sb flat flat' c clusterEoc := by
  have hmem : ∀ c, c < sb.clusterCnt → fatLink sb flat c = clusterFree → c ∈ freeSet sb flat := by
    intro c hlt hc
    refine mem_freeSet.mpr ⟨hlt, ?_, hc⟩
    by_contra hmin
    exact hres c (by omega) hc
  unfold findFreeCluster
  rcases @findFreeLoop_flat sb flat hl ht (sb.clusterCnt - v.startSearchCluster)
    v.startSearchCluster (by omega) with ⟨c, flat', -, hlt, hc, hrun, hw⟩ | ⟨hnone, hrun⟩
  · refine ⟨c, flat', hmem c (by omega) hc, ?_, hw⟩
    rw [Prog.run_bind_ok _ hrun]
    rfl
  · rcases @findFreeLoop_flat sb flat hl ht (v.startSearchCluster - 2) 2 (by omega) with
      ⟨c, flat', hle, hlt, hc, hrun', hw⟩ | ⟨hnone', -⟩
    · refine ⟨c, flat', hmem c (by omega) hc, ?_, hw⟩
      rw [Prog.run_bind_ok _ hrun]
      dsimp only
      rw [Prog.run_bind_ok _ hrun']
      rfl
    · -- the two loops come by every cluster that can be found
      obtain ⟨c, hc⟩ := hfree
      obtain ⟨hlt, hmin, hlink⟩ := mem_freeSet.mp hc
      by_cases hside : v.startSearchCluster ≤ c
      · exact absurd hlink (hnone c hside (by omega))
      · exact absurd hlink (hnone' c hmin (by omega))

/-! ## The end of a chain -/

/-- The nodes but for the hints of `i`. -/
structure SameNodes (v v' : Vol) (i : Nat) : Prop where
  dirent : (v'.nodes i).dirent = (v.nodes i).dirent
  isRoot : (v'.nodes i).isRoot = (v.nodes i).isRoot
  others : ∀ j, j ≠ i → v'.nodes j = v.nodes j

theorem SameNodes.refl (v : Vol) (i : Nat) : SameNodes v v i := ⟨rfl, rfl, fun _ _ => rfl⟩

theorem SameNodes.trans {v v' v'' : Vol} {i : Nat} (h : SameNodes v v' i)
    (h' : SameNodes v' v'' i) : SameNodes v v'' i where
  dirent := h'.dirent.trans h.dirent
  isRoot := h'.isRoot.trans h.isRoot
  others := fun j hj => (h'.others j hj).trans (h.others j hj)

theorem SameNodes.chainStart {v v' : Vol} {i : Nat} (h : SameNodes v v' i) :
    chainStart sb (v'.nodes i) = chainStart sb (v.nodes i) := by
  unfold Fatfs.chainStart
  rw [h.dirent, h.isRoot]

/-- What is behind a cluster of a chain is a chain. -/
theorem IsChain.behind {first c : Nat} {front rest : List Nat}
    (h : IsChain sb flat first (front ++ c :: rest)) :
    IsChain sb flat (fatLink sb flat c) rest := by
  induction front generalizing first with
  | nil =>
    obtain ⟨rfl, -, hrest⟩ := h
    exact hrest
  | cons d front ih => exact ih h.2.2

/-- `FindLastCluster` goes on to the end of the chain. -/
theorem findLastLoop_flat (hl : DataLayout sb) (i : Nat) (rest : List Nat) :
    ∀ fuel v cluster, IsChain sb flat (fatLink sb flat cluster) rest → rest.length < fuel →
      ∃ v', (findLastLoop sb i fuel v cluster (fatLink sb flat cluster)).run
          (flatOp sb.partitionStart) flat =
        .ok (flat, v', some ((cluster :: rest).getLast (List.cons_ne_nil _ _))) ∧
        SameNodes v v' i ∧ v'.startSearchCluster = v.startSearchCluster ∧
        ((v'.nodes i).hintCluster = (v.nodes i).hintCluster ∨ (v'.nodes i).hintCluster ∈ rest) := by
  induction rest with
  | nil =>
    intro fuel v cluster hchain hfuel
    cases fuel with
    | zero => exact absurd hfuel (Nat.not_lt_zero _)
    | succ fuel =>
      refine ⟨v, ?_, .refl v i, rfl, .inl rfl⟩
      rw [findLastLoop, if_neg hchain]
      rfl
  | cons d rest ih =>
    intro fuel v cluster hchain hfuel
    cases fuel with
    | zero => exact absurd hfuel (Nat.not_lt_zero _)
    | succ fuel =>
      obtain ⟨rfl, hdata, hrest⟩ := hchain
      obtain ⟨v', hrun, hsame, hstart, hhint⟩ := ih fuel (v.setNode i { v.nodes i with
        hintOffset := ((v.nodes i).hintOffset + sb.clusterSize) % 2 ^ 32
        hintCluster := fatLink sb flat cluster }) (fatLink sb flat cluster) hrest
        (Nat.lt_of_succ_lt_succ hfuel)
      refine ⟨v', ?_, .trans ?_ hsame, hstart, .inr ?_⟩
      · -- a round goes on to the next cluster and sets the hint to it
        rw [findLastLoop, if_pos (hdata.allocated hl)]
        dsimp only
        rw [Prog.run_bind_ok _ (readFATEntry_flat (Nat.ne_of_gt hl.fat_cnt) _),
          List.getLast_cons (List.cons_ne_nil _ _)]
        exact hrun
      · refine ⟨?_, ?_, fun j hj => ?_⟩
        · rw [Vol.setNode_apply, if_pos rfl]
        · rw [Vol.setNode_apply, if_pos rfl]
        · rw [Vol.setNode_apply, if_neg hj]
      · -- the hint is the last cluster that has been set
        rcases hhint with heq | hmem
        · rw [heq, Vol.setNode_apply, if_pos rfl]
          exact List.mem_cons_self ..
        · exact List.mem_cons_of_mem _ hmem

/-- A node that has clusters begins with one. -/
theorem IsChain.first {node : FatNode} {cs : List Nat}
    (h : IsChain sb flat (chainStart sb node) cs) (hl : DataLayout sb)
    (hroot : node.isRoot = false) (hne : cs ≠ []) :
    getFirstCluster sb node.dirent ∈ cs ∧ getFirstCluster sb node.dirent ≠ clusterEoc := by
  have hfirst : getFirstCluster sb node.dirent ∈ cs := by
    have hchain := h
    unfold Fatfs.chainStart at hchain
    rw [hroot, if_neg Bool.false_ne_true] at hchain
    cases cs with
    | nil => exact absurd rfl hne
    | cons c cs =>
      rw [← hchain.1]
      exact List.mem_cons_self ..
  refine ⟨hfirst, fun heq => ?_⟩
  have hdata := (h.inData _ hfirst).allocated hl
  rw [heq] at hdata
  exact absurd hdata (by decide)

/-- `FindLastCluster` finds the last cluster of a chain, from the hint or from the start. -/
theorem findLastCluster_chain (hl : DataLayout sb) {v : Vol} {i : Nat} {cs : List Nat}
    (h : IsChain sb flat (chainStart sb (v.nodes i)) cs)
    (hhint : (v.nodes i).hintCluster = 0 ∨ (v.nodes i).hintCluster ∈ cs)
    (hroot : (v.nodes i).isRoot = false) (hne : cs ≠ []) (hfuel : cs.length ≤ fuel) :
    ∃ v', (findLastCluster sb fuel v i).run (flatOp sb.partitionStart) flat =
        .ok (flat, v', some (cs.getLast hne)) ∧
      SameNodes v v' i ∧ v'.startSearchCluster = v.startSearchCluster ∧
      ((v'.nodes i).hintCluster = 0 ∨ (v'.nodes i).hintCluster ∈ cs) := by
  obtain ⟨hfirst, hnot⟩ := h.first hl hroot hne
  -- the walk begins at a cluster of the chain
  have hbegin : (if (v.nodes i).hintCluster ≠ 0 then (v.nodes i).hintCluster
      else getFirstCluster sb (v.nodes i).dirent) ∈ cs := by
    split
    next hzero => exact hhint.resolve_left hzero
    · exact hfirst
  unfold findLastCluster
  rw [if_neg hnot]
  dsimp only
  generalize (if (v.nodes i).hintCluster ≠ 0 then (v.nodes i).hintCluster
    else getFirstCluster sb (v.nodes i).dirent) = cluster at hbegin
  obtain ⟨front, rest, rfl⟩ := List.append_of_mem hbegin
  rw [List.length_append, List.length_cons] at hfuel
  obtain ⟨v', hrun, hsame, hstart, hhint'⟩ := findLastLoop_flat hl i rest fuel v cluster
    h.behind (by omega)
  refine ⟨v', ?_, hsame, hstart, ?_⟩
  · rw [Prog.run_bind_ok _ (readFATEntry_flat (Nat.ne_of_gt hl.fat_cnt) cluster),
      List.getLast_append_of_ne_nil hne (List.cons_ne_nil cluster rest)]
    exact hrun
  · rcases hhint' with heq | hmem
    · rw [heq]
      exact hhint
    · exact .inr (List.mem_append_right _ (List.mem_cons_of_mem _ hmem))

/-- `FindLastCluster` on a file. -/
theorem findLastCluster_flat (hl : DataLayout sb) {v : Vol} {i : Nat} {cs : List Nat}
    (h : FileAt sb flat (v.nodes i) cs) (hroot : (v.nodes i).isRoot = false) (hne : cs ≠ [])
    (hfuel : cs.length ≤ fuel) :
    ∃ v', (findLastCluster sb fuel v i).run (flatOp sb.partitionStart) flat =
        .ok (flat, v', some (cs.getLast hne)) ∧
      SameNodes v v' i ∧ v'.startSearchCluster = v.startSearchCluster ∧
      ((v'.nodes i).hintCluster = 0 ∨ (v'.nodes i).hintCluster ∈ cs) :=
  findLastCluster_chain hl h.chain h.hint hroot hne hfuel

/-! ## The file with a cluster more -/

/-- The clusters of a file after some have been appended: these were free, the links of the
others are as they were, and so is all that is in none of the file's clusters. -/
structure Grown (sb : FatSb) (flat : Nat → UInt8) (cs : List Nat) (flat' : Nat → UInt8)
    (cs' : List Nat) : Prop where
  more : ∃ new, cs' = cs ++ new ∧ ∀ c ∈ new, c ∈ freeSet sb flat
  nodup : cs'.Nodup
  links : ∀ c, c < sb.clusterCnt + 2 → c ∉ cs → fatLink sb flat c ≠ clusterFree →
    fatLink sb flat' c = fatLink sb flat c
  outside : ∀ a, ¬ InFats sb a →
    (∀ c ∈ cs', a < clusterStart sb c ∨ clusterStart sb c + sb.clusterSize ≤ a) → flat' a = flat a
  room : cs'.length + (freeSet sb flat').card = cs.length + (freeSet sb flat).card

theorem Grown.trans {flat' flat'' : Nat → UInt8} {cs cs' cs'' : List Nat}
    (h : Grown sb flat cs flat' cs') (h' : Grown sb flat' cs' flat'' cs'') :
    Grown sb flat cs flat'' cs'' := by
  obtain ⟨new, rfl, hnew⟩ := h.more
  obtain ⟨new', rfl, hnew'⟩ := h'.more
  -- a cluster that is used in the beginning is used, and none of the new ones, in between
  have hused : ∀ c, c < sb.clusterCnt + 2 → c ∉ cs → fatLink sb flat c ≠ clusterFree →
      c ∉ cs ++ new ∧ fatLink sb flat' c ≠ clusterFree := by
    intro c hlt hnot hc
    refine ⟨fun hmem => ?_, ?_⟩
    · rcases List.mem_append.mp hmem with hmem | hmem
      · exact hnot hmem
      · exact hc (mem_freeSet.mp (hnew c hmem)).2.2
    · rw [h.links c hlt hnot hc]
      exact hc
  refine ⟨⟨new ++ new', List.append_assoc .., fun c hmem => ?_⟩, h'.nodup,
    fun c hlt hnot hc => ?_, fun a ha hout => ?_, h'.room.trans h.room⟩
  · rcases List.mem_append.mp hmem with hmem | hmem
    · exact hnew c hmem
    · have hfree := mem_freeSet.mp (hnew' c hmem)
      have hdata := inData_of_mem_freeSet (hnew' c hmem)
      refine mem_freeSet.mpr ⟨hfree.1, hfree.2.1, ?_⟩
      by_contra hc
      have hnot : c ∉ cs := fun hcs =>
        (List.nodup_append.mp h'.nodup).2.2 c (List.mem_append_left _ hcs) c hmem rfl
      exact (hused c hdata.2 hnot hc).2 hfree.2.2
  · obtain ⟨hnot', hc'⟩ := hused c hlt hnot hc
    exact (h'.links c hlt hnot' hc').trans (h.links c hlt hnot hc)
  · refine (h'.outside a ha hout).trans (h.outside a ha fun c hc => hout c ?_)
    exact List.mem_append_left _ hc

/-- What writing does to the file of the node `i`. -/
structure Wrote (sb : FatSb) (i : Nat) (flat : Nat → UInt8) (v : Vol) (cs : List Nat)
    (flat' : Nat → UInt8) (v' : Vol) (cs' : List Nat) : Prop where
  state : FileState sb flat' v' i cs'
  grown : Grown sb flat cs flat' cs'
  nodes : SameNodes v v' i

theorem Wrote.trans {i : Nat} {v v' v'' : Vol} {flat' flat'' : Nat → UInt8}
    {cs cs' cs'' : List Nat} (h : Wrote sb i flat v cs flat' v' cs')
    (h' : Wrote sb i flat' v' cs' flat'' v'' cs'') : Wrote sb i flat v cs flat'' v'' cs'' :=
  ⟨h'.state, h.grown.trans h'.grown, h.nodes.trans h'.nodes⟩

/-- Bytes of the file's clusters are written. -/
theorem Wrote.of_bytes (hl : DataLayout sb) {i : Nat} {v : Vol} {cs : List Nat}
    {flat' : Nat → UInt8} (h : FileState sb flat v i cs)
    (hout : ∀ a, (∀ c ∈ cs, a < clusterStart sb c ∨ clusterStart sb c + sb.clusterSize ≤ a) →
      flat' a = flat a) : Wrote sb i flat v cs flat' v cs := by
  have hlink : ∀ c, c < sb.clusterCnt + 2 → fatLink sb flat' c = fatLink sb flat c := by
    refine fun c hc => fatLink_congr hl hc fun a ⟨f, hf, _, hhi⟩ => hout a fun d _ => .inl ?_
    have := fat_before_cluster hl hf d
    omega
  have hlink' : ∀ c ∈ cs, fatLink sb flat' c = fatLink sb flat c :=
    fun c hc => hlink c (h.chain.inData c hc).2
  have hfree : freeSet sb flat' = freeSet sb flat := by
    ext c
    rw [mem_freeSet, mem_freeSet]
    refine and_congr_right fun hlt => ?_
    rw [hlink c (by omega)]
  refine ⟨⟨⟨h.chain.congr hlink', h.nodup, fun c hc => ?_, h.hint, h.size⟩, h.start,
    fun c hc => ?_⟩, ⟨⟨[], (List.append_nil cs).symm, fun c hc => nomatch hc⟩, h.nodup,
    fun c hlt _ _ => hlink c hlt, fun a _ => hout a, by rw [hfree]⟩, .refl v i⟩
  · rw [hlink' c hc]
    exact h.used c hc
  · rw [hlink c (by omega)]
    exact h.reserved c hc

/-- A chain after a free cluster has been marked as the end of one and its last cluster has
been linked to it. -/
theorem IsChain.append {first c : Nat} {cs : List Nat} {flat₁ flat₂ : Nat → UInt8}
    (h : IsChain sb flat first cs) (hne : cs ≠ []) (hnodup : cs.Nodup)
    (hused : ∀ d ∈ cs, fatLink sb flat d ≠ clusterFree) (hdata : InData sb c)
    (hfree : fatLink sb flat c = clusterFree) (hw₁ : LinkWritten sb flat flat₁ c clusterEoc)
    (hw₂ : LinkWritten sb flat₁ flat₂ (cs.getLast hne) c) :
    IsChain sb flat₂ first (cs ++ [c]) ∧ fatLink sb flat₂ c = clusterEoc ∧
      ∀ d, d < sb.clusterCnt + 2 → d ≠ c → d ≠ cs.getLast hne →
        fatLink sb flat₂ d = fatLink sb flat d := by
  have hcnot : c ∉ cs := fun hmem => hused c hmem hfree
  have hclast : c ≠ cs.getLast hne := fun heq => hcnot (heq ▸ List.getLast_mem hne)
  have hcend : fatLink sb flat₂ c = clusterEoc := by
    rw [hw₂.other c hdata.2 hclast, hw₁.self]
  have hother : ∀ d, d < sb.clusterCnt + 2 → d ≠ c → d ≠ cs.getLast hne →
      fatLink sb flat₂ d = fatLink sb flat d := by
    intro d hd hdc hdl
    rw [hw₂.other d hd hdl, hw₁.other d hd hdc]
  refine ⟨h.snoc hne hnodup (fun d hd hdl => ?_) hw₂.self hdata ?_, hcend, hother⟩
  · exact hother d (h.inData d hd).2 (fun heq => hcnot (heq ▸ hd)) hdl
  · rw [hcend]
    decide

/-- The cluster that has been appended is the only one that is no longer free. -/
theorem freeSet_append {c l : Nat} {flat₂ : Nat → UInt8} (hc : fatLink sb flat₂ c = clusterEoc)
    (hused : fatLink sb flat l ≠ clusterFree) (hused' : fatLink sb flat₂ l ≠ clusterFree)
    (hother : ∀ d, d < sb.clusterCnt + 2 → d ≠ c → d ≠ l →
      fatLink sb flat₂ d = fatLink sb flat d) :
    freeSet sb flat₂ = (freeSet sb flat).erase c := by
  ext d
  rw [Finset.mem_erase, mem_freeSet, mem_freeSet]
  by_cases hdc : d = c
  · rw [hdc, hc]
    exact ⟨fun hd => absurd hd.2.2 (by decide), fun hd => absurd rfl hd.1⟩
  · by_cases hdl : d = l
    · rw [hdl]
      exact ⟨fun hd => absurd hd.2.2 hused', fun hd => absurd hd.2.2.2 hused⟩
    · refine ⟨fun hd => ⟨hdc, hd.1, hd.2.1, ?_⟩, fun hd => ⟨hd.2.1, hd.2.2.1, ?_⟩⟩
      · rw [← hother d (by omega) hdc hdl]
        exact hd.2.2
      · rw [hother d (by omega) hdc hdl]
        exact hd.2.2.2

/-- `AppendCluster` appends a free cluster to a file that has one already. -/
theorem appendCluster_flat (hl : DataLayout sb) (ht : sb.fatType ≠ .fat32) {v : Vol} {i : Nat}
    {cs : List Nat} (h : FileState sb flat v i cs) (hroot : (v.nodes i).isRoot = false)
    (hne : cs ≠ []) (hfree : (freeSet sb flat).Nonempty) (hfuel : cs.length ≤ fuel) :
    ∃ c flat' v', (appendCluster sb fuel v i).run (flatOp sb.partitionStart) flat =
        .ok (flat', v', some c) ∧ Wrote sb i flat v cs flat' v' (cs ++ [c]) ∧
      ∀ a, ¬ InFats sb a → flat' a = flat a := by
  obtain ⟨v₁, hrun₁, hsame, hstart, hhint⟩ := findLastCluster_flat hl h.toFileAt hroot hne hfuel
  obtain ⟨c, flat₁, hc, hrun₂, hw₁⟩ := findFreeCluster_flat (v := v₁) hl ht
    (by rw [hstart]; exact h.start) h.reserved hfree
  obtain ⟨hcnt, hmin, hclink⟩ := mem_freeSet.mp hc
  have hdata := inData_of_mem_freeSet hc
  have hlmem := List.getLast_mem hne
  have hldata := h.chain.inData _ hlmem
  obtain ⟨flat₂, hrun₃, hw₂⟩ := @writeFATEntry_link sb flat₁ _ _ hl ht hldata.2
    (hdata.fatValue hl)
  -- the links afterwards
  obtain ⟨hchain, hcend, hother⟩ := h.chain.append hne h.nodup h.used hdata hclink hw₁ hw₂
  have hcnot : c ∉ cs := fun hmem => h.used c hmem hclink
  have hnodup : (cs ++ [c]).Nodup := by
    refine List.nodup_append.mpr ⟨h.nodup, List.nodup_singleton c, fun d hd e he heq => ?_⟩
    rw [List.mem_singleton.mp he] at heq
    exact hcnot (heq ▸ hd)
  have hbytes : ∀ a, ¬ InFats sb a → flat₂ a = flat a :=
    fun a ha => (hw₂.outside a ha).trans (hw₁.outside a ha)
  have hnew : ∀ d ∈ cs ++ [c], fatLink sb flat₂ d ≠ clusterFree := by
    intro d hd
    rcases List.mem_append.mp hd with hd | hd
    · by_cases hdl : d = cs.getLast hne
      · rw [hdl, hw₂.self]
        exact show c ≠ 0 by omega
      · rw [hother d (h.chain.inData d hd).2 (fun heq => hcnot (heq ▸ hd)) hdl]
        exact h.used d hd
    · rw [List.mem_singleton.mp hd, hcend]
      decide
  have herase : freeSet sb flat₂ = (freeSet sb flat).erase c :=
    freeSet_append hcend (h.used _ hlmem) (hnew _ (List.mem_append_left _ hlmem)) hother
  refine ⟨c, flat₂, { v₁ with startSearchCluster := c }, ?_, ⟨⟨⟨?_, hnodup, hnew, ?_, ?_⟩, ?_, ?_⟩,
    ⟨⟨[c], rfl, ?_⟩, hnodup, ?_, ?_, ?_⟩, ?_⟩, hbytes⟩
  · -- the run: the file has a first cluster, so the last one is linked to the new one
    have hnot := (h.chain.first hl hroot hne).2
    rw [← hsame.dirent] at hnot
    unfold appendCluster
    rw [Prog.run_bind_ok _ hrun₁]
    dsimp only
    rw [Prog.run_bind_ok _ hrun₂]
    dsimp only
    rw [if_neg hnot, Prog.run_bind_ok _ hrun₃]
    rfl
  · show IsChain sb flat₂ (chainStart sb (v₁.nodes i)) (cs ++ [c])
    rw [hsame.chainStart]
    exact hchain
  · rcases hhint with hzero | hmem
    · exact .inl hzero
    · exact .inr (List.mem_append_left _ hmem)
  · show (v₁.nodes i).dirent.size ≤ _
    rw [hsame.dirent, List.length_append, Nat.add_mul]
    exact Nat.le_add_right_of_le h.size
  · exact Nat.le_of_lt hcnt
  · -- the two reserved words are not those of clusters
    intro d hd
    rw [hother d (by omega) (by omega) (fun heq => by have := hldata.1; omega)]
    exact h.reserved d hd
  · intro d hd
    rw [List.mem_singleton.mp hd]
    exact hc
  · -- the links of the other clusters in use
    intro d hd hnot hused
    exact hother d hd (fun heq => hused (heq ▸ hclink)) (fun heq => hnot (heq ▸ hlmem))
  · exact fun a ha _ => hbytes a ha
  · rw [herase, List.length_append, List.length_singleton, Nat.add_assoc, Nat.add_comm 1,
      Finset.card_erase_add_one hc]
  · exact ⟨hsame.dirent, hsame.isRoot, hsame.others⟩

/-- New hints leave the file as it is. -/
theorem Wrote.of_hints {v v' : Vol} {i : Nat} {cs : List Nat}
    (h : FileState sb flat v i cs) (hsame : SameNodes v v' i)
    (hstart : v'.startSearchCluster = v.startSearchCluster)
    (hhint : (v'.nodes i).hintCluster = 0 ∨ (v'.nodes i).hintCluster ∈ cs) :
    Wrote sb i flat v cs flat v' cs := by
  refine ⟨⟨⟨?_, h.nodup, h.used, hhint, ?_⟩, ?_, h.reserved⟩, ⟨⟨[], (List.append_nil cs).symm,
    fun c hc => nomatch hc⟩, h.nodup, fun _ _ _ _ => rfl, fun _ _ _ => rfl, rfl⟩, hsame⟩
  · rw [hsame.chainStart]
    exact h.chain
  · rw [hsame.dirent]
    exact h.size
  · rw [hstart]
    exact h.start

/-- `AppendCluster` fails where no free cluster is found. -/
theorem appendCluster_none (hl : DataLayout sb) (ht : sb.fatType ≠ .fat32) {v : Vol} {i : Nat}
    {cs : List Nat} (h : FileState sb flat v i cs) (hroot : (v.nodes i).isRoot = false) (hne : cs ≠ [])
    (hfull : freeSet sb flat = ∅) (hfuel : cs.length ≤ fuel) :
    ∃ v', (appendCluster sb fuel v i).run (flatOp sb.partitionStart) flat = .ok (flat, v', none) ∧
      Wrote sb i flat v cs flat v' cs := by
  obtain ⟨v₁, hrun₁, hsame, hstart, hhint⟩ := findLastCluster_flat hl h.toFileAt hroot hne hfuel
  have hnone : ∀ c, c < sb.clusterCnt → fatLink sb flat c ≠ clusterFree := by
    intro c hlt hfree
    by_cases hmin : 2 ≤ c
    · have hc : c ∈ freeSet sb flat := mem_freeSet.mpr ⟨hlt, hmin, hfree⟩
      rw [hfull] at hc
      exact absurd hc (Finset.notMem_empty c)
    · exact h.reserved c (by omega) hfree
  have hstart' := h.start
  have hsearch : ∀ cluster n, cluster + n ≤ sb.clusterCnt ∨ n = 0 →
      (findFreeLoop sb n cluster).run (flatOp sb.partitionStart) flat = .ok (flat, none) := by
    intro cluster n hn
    rcases hn with hn | rfl
    · rcases @findFreeLoop_flat sb flat hl ht n cluster (by omega) with
        ⟨c, _, -, hlt, hfree, -⟩ | ⟨-, hrun⟩
      · exact absurd hfree (hnone c (by omega))
      · exact hrun
    · rfl
  refine ⟨v₁, ?_, .of_hints h hsame hstart hhint⟩
  unfold appendCluster findFreeCluster
  rw [Prog.run_bind_ok _ hrun₁]
  dsimp only
  rw [Prog.run_bind, Prog.run_bind_ok _ (hsearch _ _ (by omega))]
  dsimp only
  rw [Prog.run_bind_ok _ (hsearch _ _ (by omega))]
  rfl

end Append

end Cheviot.Fatfs
