import Cheviot.Fatfs.Ends
import Cheviot.Fatfs.Rounds

/-!
# When a write comes to its end

`writeFile` looks for the cluster of each piece of its data, and appends clusters until it is
there or none is free. Whether it comes to its end is a matter of the chains: what is cleared
has to fit its sector, and `FindLastCluster`, which has no other end than that of its chain,
must not go in a circle.

`FindLastCluster` and `AppendCluster` are turned into functions of the bytes of the volume, the
node and the place where the search for a free cluster starts: `lastOf` and `grow`. A round
that appends a cluster is then a step of a walk, which ends where the cluster of the piece is
there or no cluster is free. The data of a piece may fall on a FAT, so that the next piece
begins with the bytes this one leaves.

* `hop`, `lastOf`, `LastEnds` — `FindLastCluster`, and when it ends.
* `Growth`, `grow` — what `AppendCluster` goes by, and what it makes of it.
* `PiecesEnd`, `WriteEnds` — the pieces of a write, and what has to hold for it to end.
* `writeFile_ends_iff` — it ends exactly then.
* `WriteEnds.of_found`, `WriteEnds.of_state` — so it does where the cluster is there, and on a
  file in order.
-/

namespace Cheviot.Fatfs

open Cheviot.Bytes Cheviot.Walk

/-! ## `FindLastCluster` -/

section Definitions

variable (sb : FatSb) (flat : Nat → UInt8)

/-- A round of `FindLastCluster`: on to the next cluster, if there is one, and the hints with
it. -/
def hop (w : FatNode × Nat) : FatNode × Nat :=
  let next := fatLink sb flat w.2
  if Allocated next then
    ({ w.1 with
      hintOffset := (w.1.hintOffset + sb.clusterSize) % 2 ^ 32
      hintCluster := next }, next)
  else w

/-- The node and the cluster it comes to. -/
def lastOf (node : FatNode) : FatNode × Nat :=
  if getFirstCluster sb node.dirent = clusterEoc then (node, clusterEoc)
  else (hop sb flat)^[entryValues sb.fatType] (node, walkStart sb node)

/-- `FindLastCluster` comes to a last cluster: the node has no chain, or its chain does not come
around. -/
def LastEnds (node : FatNode) : Prop :=
  getFirstCluster sb node.dirent = clusterEoc ∨
    ¬ ComesAround (fatLink sb flat) Allocated (fatLink sb flat (walkStart sb node))

end Definitions

section Last

variable {sb : FatSb} {flat : Nat → UInt8} {i : Nat}

theorem Vol.setNode_self (v : Vol) (i : Nat) : v.setNode i (v.nodes i) = v := by
  unfold Vol.setNode
  rw [Function.update_eq_self]

/-- Behind the last cluster the walk stays. -/
theorem hop_stays {w : FatNode × Nat} (h : ¬ Allocated (fatLink sb flat w.2)) (n : Nat) :
    (hop sb flat)^[n] w = w :=
  Function.iterate_fixed (show hop sb flat w = w from if_neg h) n

/-- Two walks that have come to an end have come to the same. -/
theorem hop_unique {w : FatNode × Nat} {n m : Nat}
    (hn : ¬ Allocated (fatLink sb flat ((hop sb flat)^[n] w).2))
    (hm : ¬ Allocated (fatLink sb flat ((hop sb flat)^[m] w).2)) :
    (hop sb flat)^[n] w = (hop sb flat)^[m] w := by
  rcases Nat.le_total n m with hle | hle
  · rw [← Nat.sub_add_cancel hle, Function.iterate_add_apply, hop_stays hn]
  · rw [← Nat.sub_add_cancel hle, Function.iterate_add_apply, hop_stays hm]

/-- The loop of `FindLastCluster` runs out of rounds, or comes to where the walk does. -/
theorem findLastLoop_hops (hfat : sb.fatCnt ≠ 0) (fuel : Nat) : ∀ v cluster,
    (findLastLoop sb i fuel v cluster (fatLink sb flat cluster)).run (flatOp sb.partitionStart)
        flat = .error .hang ∨
      ∃ n, n < fuel ∧
        ¬ Allocated (fatLink sb flat ((hop sb flat)^[n] (v.nodes i, cluster)).2) ∧
        (findLastLoop sb i fuel v cluster (fatLink sb flat cluster)).run
          (flatOp sb.partitionStart) flat =
          .ok (flat, v.setNode i ((hop sb flat)^[n] (v.nodes i, cluster)).1,
            some ((hop sb flat)^[n] (v.nodes i, cluster)).2) := by
  induction fuel with
  | zero => exact fun _ _ => .inl rfl
  | succ fuel ih =>
    intro v cluster
    rw [findLastLoop]
    by_cases hnext : Allocated (fatLink sb flat cluster)
    · rw [if_pos hnext]
      dsimp only
      rw [Prog.run_bind_ok _ (readFATEntry_flat hfat _)]
      dsimp only
      -- a round is a step of the walk
      have hhop : hop sb flat (v.nodes i, cluster) = ({ v.nodes i with
          hintOffset := ((v.nodes i).hintOffset + sb.clusterSize) % 2 ^ 32
          hintCluster := fatLink sb flat cluster }, fatLink sb flat cluster) := if_pos hnext
      rcases ih (v.setNode i (hop sb flat (v.nodes i, cluster)).1) (fatLink sb flat cluster) with
        hhang | ⟨n, hn, hend, hrun⟩
      · rw [hhop] at hhang
        exact .inl hhang
      · refine .inr ⟨n + 1, Nat.succ_lt_succ hn, ?_, ?_⟩
        · rw [Vol.setNode_apply, if_pos rfl, hhop] at hend
          rw [Function.iterate_succ_apply, hhop]
          exact hend
        · rw [Vol.setNode_setNode, Vol.setNode_apply, if_pos rfl, hhop] at hrun
          rw [Function.iterate_succ_apply, hhop]
          exact hrun
    · rw [if_neg hnext]
      refine .inr ⟨0, Nat.succ_pos _, hnext, ?_⟩
      rw [Function.iterate_zero_apply, Vol.setNode_self]
      rfl

/-- `FindLastCluster` has no end where its chain comes around; elsewhere it comes to the last
cluster, with as many rounds as an entry has values. -/
theorem findLastCluster_lastOf (hfat : sb.fatCnt ≠ 0) (fuel : Nat) (v : Vol) :
    (¬ LastEnds sb flat (v.nodes i) → (findLastCluster sb fuel v i).run
      (flatOp sb.partitionStart) flat = .error .hang) ∧
    (LastEnds sb flat (v.nodes i) →
      (fuel < entryValues sb.fatType ∧ (findLastCluster sb fuel v i).run
        (flatOp sb.partitionStart) flat = .error .hang) ∨
      (findLastCluster sb fuel v i).run (flatOp sb.partitionStart) flat =
        .ok (flat, v.setNode i (lastOf sb flat (v.nodes i)).1,
          some (lastOf sb flat (v.nodes i)).2)) := by
  unfold lastOf
  by_cases heoc : getFirstCluster sb (v.nodes i).dirent = clusterEoc
  · refine ⟨fun hnot => absurd (.inl heoc) hnot, fun _ => .inr ?_⟩
    rw [findLastCluster, if_pos heoc, if_pos heoc, Vol.setNode_self]
    rfl
  have hloop : ∀ fuel, (findLastCluster sb fuel v i).run (flatOp sb.partitionStart) flat =
      (findLastLoop sb i fuel v (walkStart sb (v.nodes i))
        (fatLink sb flat (walkStart sb (v.nodes i)))).run (flatOp sb.partitionStart) flat := by
    intro fuel
    rw [findLastCluster, if_neg heoc]
    dsimp only
    rw [← walkStart, Prog.run_bind_ok _ (readFATEntry_flat hfat _)]
  rw [if_neg heoc, hloop]
  have hcases := @findLastLoop_hops sb flat i hfat fuel v (walkStart sb (v.nodes i))
  constructor
  · intro hnot
    rcases hcases with hhang | ⟨n, hn, -, hrun⟩
    · exact hhang
    · -- a walk that ends does not come around
      obtain ⟨m, rfl⟩ : ∃ m, fuel = m + 1 := ⟨fuel - 1, by omega⟩
      obtain ⟨k, -, hend⟩ := (findLastLoop_endsWithin hfat m v _ _).mp ⟨_, hrun⟩
      exact absurd (.inr fun haround => hend (haround.good k)) hnot
  · intro hends
    -- the walk of all rounds, and the end it comes to
    obtain ⟨r, hall⟩ := (findLastCluster_endsWithin hfat v).mpr hends
    rw [hloop] at hall
    rcases findLastLoop_hops hfat (entryValues sb.fatType) v (walkStart sb (v.nodes i)) with
      hhang | ⟨k, hk, hend, -⟩
    · rw [hhang] at hall
      cases hall
    have hlast : (hop sb flat)^[entryValues sb.fatType] (v.nodes i, walkStart sb (v.nodes i)) =
        (hop sb flat)^[k] (v.nodes i, walkStart sb (v.nodes i)) := by
      rw [← Nat.sub_add_cancel (Nat.le_of_lt hk), Function.iterate_add_apply, hop_stays hend]
    rw [hlast]
    rcases hcases with hhang | ⟨n, -, hn, hrun⟩
    · refine .inl ⟨?_, hhang⟩
      -- as many rounds as an entry has values are enough
      by_contra henough
      obtain ⟨m, hm⟩ : ∃ m, entryValues sb.fatType = m + 1 :=
        ⟨entryValues sb.fatType - 1, by omega⟩
      obtain ⟨l, rfl⟩ : ∃ l, fuel = l + 1 := ⟨fuel - 1, by omega⟩
      rw [hm] at hall
      obtain ⟨j, hj, hstop⟩ := (findLastLoop_endsWithin hfat m v _ _).mp ⟨r, hall⟩
      obtain ⟨r', hrun'⟩ := (findLastLoop_endsWithin (i := i) hfat l v
        (walkStart sb (v.nodes i)) _).mpr ⟨j, by omega, hstop⟩
      rw [hhang] at hrun'
      cases hrun'
    · rw [hop_unique hend hn]
      exact .inr hrun

end Last

/-! ## `FindFreeCluster` -/

section Free

variable {sb : FatSb} {flat : Nat → UInt8}

/-- The bytes of the volume with the cluster that has been found, if there is one, in use. -/
def marked (sb : FatSb) (flat : Nat → UInt8) : Option Nat → Nat → UInt8
  | none => flat
  | some c => writeLink sb flat c clusterEoc

theorem findFreeLoop_marked (hfat : sb.fatCnt ≠ 0) (n : Nat) : ∀ cluster,
    (findFreeLoop sb n cluster).run (flatOp sb.partitionStart) flat =
      .ok (marked sb flat (firstFree sb flat (List.range' cluster n)),
        firstFree sb flat (List.range' cluster n)) := by
  induction n with
  | zero => exact fun _ => rfl
  | succ n ih =>
    intro cluster
    rw [findFreeLoop, Prog.run_bind_ok _ (readFATEntry_flat hfat cluster), List.range'_succ,
      firstFree_cons]
    by_cases hfree : fatLink sb flat cluster = clusterFree
    · rw [if_pos (congrArg some hfree), if_pos hfree,
        Prog.run_bind_ok _ (writeFATEntry_writeLink hfat cluster clusterEoc flat)]
      rfl
    · rw [if_neg (fun h => hfree (Option.some.inj h)), if_neg hfree]
      exact ih _

/-- `FindFreeCluster` takes the first free cluster there is, in the order of its search. -/
theorem findFreeCluster_marked (hfat : sb.fatCnt ≠ 0) (v : Vol) {r : Option Nat}
    (hr : firstFree sb flat (searchOrder sb v.startSearchCluster) = r) :
    (findFreeCluster sb v).run (flatOp sb.partitionStart) flat =
      .ok (marked sb flat r, { v with startSearchCluster := r.getD v.startSearchCluster }, r) := by
  rw [searchOrder, firstFree_append] at hr
  rw [findFreeCluster, Prog.run_bind_ok _ (findFreeLoop_marked hfat _ _)]
  cases hfirst : firstFree sb flat (List.range' v.startSearchCluster
      (sb.clusterCnt - v.startSearchCluster)) with
  | some c =>
    rw [hfirst, Option.some_or] at hr
    subst hr
    rfl
  | none =>
    rw [hfirst, Option.none_or] at hr
    dsimp only [marked]
    rw [Prog.run_bind_ok _ (findFreeLoop_marked hfat _ _), hr]
    cases r with
    | some c => rfl
    | none => rfl

end Free

/-! ## `AppendCluster` -/

/-- What `AppendCluster` goes by: the bytes of the volume, the node, and where the search for a
free cluster starts. -/
structure Growth where
  flat : Nat → UInt8
  node : FatNode
  start : Nat

/-- What `AppendCluster` goes by, for the node `i` of a volume. -/
def growthOf (flat : Nat → UInt8) (v : Vol) (i : Nat) : Growth :=
  ⟨flat, v.nodes i, v.startSearchCluster⟩

section Growth

variable (sb : FatSb) (i : Nat) (w : Growth)

/-- The cluster that is appended next. -/
def Growth.free : Option Nat := firstFree sb w.flat (searchOrder sb w.start)

/-- The cluster of an offset. -/
def Growth.cluster (offset : Nat) : Option Nat :=
  chainNth sb w.flat (offset / sb.clusterSize) (chainStart sb w.node)

/-- The bytes of the volume after `FlushDirent`. -/
def flushed (flat : Nat → UInt8) (node : FatNode) : Nat → UInt8 :=
  if i = rootNode then flat
  else ringPatch flat (byteOf sb.partitionStart node.direntSector node.direntOffset)
    node.dirent.toChunk.bytes

/-- A cluster appended behind the last one, or as the first one of a file that has none. -/
def Growth.append (c : Nat) (last : FatNode × Nat) : Growth :=
  let flat := writeLink sb w.flat c clusterEoc
  if getFirstCluster sb last.1.dirent = clusterEoc then
    let node := { last.1 with dirent := setFirstCluster sb last.1.dirent c }
    ⟨flushed sb i flat node, node, c⟩
  else ⟨writeLink sb flat last.2 c, last.1, c⟩

/-- What `AppendCluster` makes of it. -/
def grow : Growth :=
  (w.free sb).elim w fun c => w.append sb i c (lastOf sb w.flat w.node)

variable {sb} {i} {w} {fuel : Nat} {flat : Nat → UInt8} {v : Vol}

theorem grow_of_free {c : Nat} {last : FatNode × Nat} (h : w.free sb = some c)
    (hlast : lastOf sb w.flat w.node = last) : grow sb i w = w.append sb i c last := by
  rw [grow, h, hlast, Option.elim_some]

theorem flushDirent_flushed (flat : Nat → UInt8) (v : Vol) (i : Nat) :
    (flushDirent v i).run (flatOp sb.partitionStart) flat =
      .ok (flushed sb i flat (v.nodes i), ()) := by
  unfold flushDirent flushed
  split
  · rfl
  · rfl

/-- `AppendCluster` ends where `FindLastCluster` does: with the next free cluster, or with none
where there is none. -/
theorem appendCluster_grow (hfat : sb.fatCnt ≠ 0) (fuel : Nat) (hw : growthOf flat v i = w) :
    (¬ LastEnds sb w.flat w.node → (appendCluster sb fuel v i).run (flatOp sb.partitionStart)
      flat = .error .hang) ∧
    (LastEnds sb w.flat w.node →
      (fuel < entryValues sb.fatType ∧ (appendCluster sb fuel v i).run (flatOp sb.partitionStart)
        flat = .error .hang) ∨
      ∃ flat' v', (appendCluster sb fuel v i).run (flatOp sb.partitionStart) flat =
          .ok (flat', v', w.free sb) ∧ (w.free sb ≠ none → growthOf flat' v' i = grow sb i w)) := by
  subst hw
  obtain ⟨hcircle, hends⟩ := @findLastCluster_lastOf sb flat i hfat fuel v
  rw [appendCluster]
  constructor
  · intro hnot
    rw [Prog.run_bind_error _ (hcircle hnot)]
  intro hlast
  rcases hends hlast with ⟨hfew, hhang⟩ | hrun
  · rw [Prog.run_bind_error _ hhang]
    exact .inl ⟨hfew, rfl⟩
  -- the node and the last cluster that the walk comes to
  obtain ⟨p, hp⟩ : ∃ p, lastOf sb flat (v.nodes i) = p := ⟨_, rfl⟩
  have hrun' : (findLastCluster sb fuel v i).run (flatOp sb.partitionStart) flat =
      .ok (flat, v.setNode i p.1, some p.2) := hp ▸ hrun
  have hnode : (v.setNode i p.1).nodes i = p.1 := by rw [Vol.setNode_apply, if_pos rfl]
  right
  rw [Prog.run_bind_ok _ hrun']
  generalize hv₁ : v.setNode i p.1 = v₁ at hnode
  have hstart : v₁.startSearchCluster = v.startSearchCluster := by
    rw [← hv₁]
    rfl
  have hsearch : firstFree sb flat (searchOrder sb v₁.startSearchCluster) =
      (growthOf flat v i).free sb := by
    rw [hstart]
    rfl
  dsimp only
  rw [Prog.run_bind_ok _ (findFreeCluster_marked hfat v₁ hsearch)]
  cases hfree : (growthOf flat v i).free sb with
  | none => exact ⟨flat, _, rfl, fun h => absurd rfl h⟩
  | some c =>
    rw [grow_of_free hfree hp, Growth.append]
    dsimp only [marked, Option.getD_some]
    rw [hnode]
    by_cases heoc : getFirstCluster sb p.1.dirent = clusterEoc
    · -- the first cluster of a file goes to its entry
      rw [if_pos heoc, if_pos heoc, Prog.run_bind_ok _ (flushDirent_flushed ..)]
      refine ⟨_, _, rfl, fun _ => ?_⟩
      rw [growthOf, Vol.setNode_apply, if_pos rfl]
      rfl
    · -- any other one goes to the link of the last
      rw [if_neg heoc, if_neg heoc, Prog.run_bind_ok _ (writeFATEntry_writeLink hfat _ _ _)]
      refine ⟨_, _, rfl, fun _ => ?_⟩
      rw [growthOf, hnode]
      rfl

end Growth

/-! ## The pieces of a write -/

section Pieces

variable (sb : FatSb) (i : Nat)

/-- The cluster of an offset is missing, and one is appended. -/
def Grows (offset : Nat) (w : Growth) : Prop :=
  w.cluster sb offset = none ∧ LastEnds sb w.flat w.node ∧ w.free sb ≠ none

/-- The cluster of an offset is missing, and none is free. -/
def Full (offset : Nat) (w : Growth) : Prop :=
  w.cluster sb offset = none ∧ LastEnds sb w.flat w.node ∧ w.free sb = none

/-- What a piece of the data leaves. -/
def Growth.put (w : Growth) (c : Nat) (piece : List UInt8) (offset : Nat) : Growth :=
  { w with
    flat := ringPatch w.flat
      (byteOf sb.partitionStart (sectorInCluster sb c offset) (sectorOffset offset)) piece }

/-- Clusters can be appended until the one of the next piece is there, and so for those behind
it, or no cluster is free. -/
def PiecesEnd : Nat → List UInt8 → Nat → Growth → Prop
  | 0, _, _, _ => False
  | rounds + 1, src, offset, w =>
    let n := transferNbytes src.length (offset % 512)
    src = [] ∨ Reaches (grow sb i) (Grows sb offset) (fun w => Full sb offset w ∨
      ∃ c, w.cluster sb offset = some c ∧
        PiecesEnd rounds (src.drop n) (offset + n) (w.put sb c (src.take n) offset)) w

variable {sb} {i} {fuel : Nat} {flat flat' : Nat → UInt8} {v v' : Vol} {w : Growth}
  {offset : Nat} {r : Option Nat}

theorem findCluster_cluster (hfat : sb.fatCnt ≠ 0) (hw : growthOf flat v i = w) (offset : Nat) :
    (findCluster sb (v.nodes i) offset).run (flatOp sb.partitionStart) flat =
      .ok (flat, w.cluster sb offset) := by
  subst hw
  exact findCluster_flat hfat (v.nodes i) offset

/-- The search for a cluster that ends has gone over the walk to where it ends. -/
theorem findOrAppend_reaches (hfat : sb.fatCnt ≠ 0) (offset n : Nat) : ∀ flat v w,
    growthOf flat v i = w → (findOrAppend sb fuel i offset n v).run (flatOp sb.partitionStart)
      flat = .ok (flat', v', r) →
    Reaches (grow sb i) (Grows sb offset) (fun w => (r = none ∧ Full sb offset w) ∨
      ∃ c, r = some c ∧ w.cluster sb offset = some c ∧ growthOf flat' v' i = w) w := by
  induction n with
  | zero =>
    intro flat v w _ hrun
    cases hrun
  | succ n ih =>
    intro flat v w hw hrun
    rw [findOrAppend, Prog.run_bind_ok _ (findCluster_cluster hfat hw offset)] at hrun
    cases hc : w.cluster sb offset with
    | some c =>
      rw [hc] at hrun
      cases hrun
      -- the cluster is there
      exact .of (.inr ⟨c, rfl, hc, hw⟩)
    | none =>
      rw [hc] at hrun
      obtain ⟨hcircle, hends⟩ := appendCluster_grow hfat fuel hw
      obtain ⟨flat₁, ⟨v₁, r₁⟩, happend, hrest⟩ := Prog.ok_of_run_bind _ hrun
      by_cases hlast : LastEnds sb w.flat w.node
      · rcases hends hlast with ⟨-, hhang⟩ | ⟨flat₂, v₂, hok, hgrown⟩
        · rw [hhang] at happend
          cases happend
        · rw [hok] at happend
          cases happend
          cases hfree : w.free sb with
          | none =>
            rw [hfree] at hrest
            cases hrest
            -- no cluster is free
            exact .of (.inl ⟨rfl, hc, hlast, hfree⟩)
          | some d =>
            rw [hfree] at hrest hgrown
            -- one is appended, which is a step of the walk
            have hgrows : Grows sb offset w := ⟨hc, hlast, by rw [hfree]; exact Option.some_ne_none d⟩
            exact .step hgrows (ih _ _ _ (hgrown (Option.some_ne_none d)) hrest)
      · rw [hcircle hlast] at happend
        cases happend

/-- Where the walk comes to its end, the search does, with rounds enough. -/
theorem findOrAppend_ends_of (hfat : sb.fatCnt ≠ 0) (hfuel : entryValues sb.fatType ≤ fuel)
    (offset k : Nat) : ∀ n flat v w, k < n → growthOf flat v i = w →
      (∀ m, m < k → Grows sb offset ((grow sb i)^[m] w)) →
      (Full sb offset ((grow sb i)^[k] w) → ∃ flat' v',
        (findOrAppend sb fuel i offset n v).run (flatOp sb.partitionStart) flat =
          .ok (flat', v', none)) ∧
      ∀ c, ((grow sb i)^[k] w).cluster sb offset = some c → ∃ flat' v',
        (findOrAppend sb fuel i offset n v).run (flatOp sb.partitionStart) flat =
          .ok (flat', v', some c) ∧ growthOf flat' v' i = (grow sb i)^[k] w := by
  induction k with
  | zero =>
    intro n flat v w hn hw _
    obtain ⟨n, rfl⟩ := Nat.exists_eq_succ_of_ne_zero (Nat.ne_of_gt hn)
    have hfind := findCluster_cluster hfat hw offset
    rw [findOrAppend, Prog.run_bind_ok _ hfind, Function.iterate_zero_apply]
    constructor
    · intro hfull
      obtain ⟨hc, hlast, hfree⟩ := hfull
      rw [hc]
      rcases (appendCluster_grow hfat fuel hw).2 hlast with ⟨hfew, -⟩ | ⟨flat', v', hrun, -⟩
      · exact absurd hfuel (Nat.not_le_of_lt hfew)
      · rw [hfree] at hrun
        exact ⟨flat', v', Prog.run_bind_ok _ hrun _⟩
    · intro c hc
      rw [hc]
      exact ⟨flat, v, rfl, hw⟩
  | succ k ih =>
    intro n flat v w hn hw hgood
    obtain ⟨n, rfl⟩ : ∃ m, n = m + 1 := ⟨n - 1, by omega⟩
    -- the first of the clusters that are appended
    have hfirst := hgood 0 (Nat.succ_pos k)
    rw [Function.iterate_zero_apply] at hfirst
    obtain ⟨hc, hlast, hfree⟩ := hfirst
    rcases (appendCluster_grow hfat fuel hw).2 hlast with ⟨hfew, -⟩ | ⟨flat₁, v₁, hrun, hgrown⟩
    · exact absurd hfuel (Nat.not_le_of_lt hfew)
    obtain ⟨d, hd⟩ := Option.ne_none_iff_exists'.mp hfree
    have hround : (findOrAppend sb fuel i offset (n + 1) v).run (flatOp sb.partitionStart) flat =
        (findOrAppend sb fuel i offset n v₁).run (flatOp sb.partitionStart) flat₁ := by
      rw [findOrAppend, Prog.run_bind_ok _ (findCluster_cluster hfat hw offset), hc]
      dsimp only
      rw [Prog.run_bind_ok _ hrun, hd]
    rw [hround, Function.iterate_succ_apply]
    refine ih n flat₁ v₁ _ (Nat.lt_of_succ_lt_succ hn) (hgrown hfree) fun m hm => ?_
    rw [← Function.iterate_succ_apply]
    exact hgood (m + 1) (Nat.succ_lt_succ hm)

/-- The loop of `writeFile`, where it has ended. -/
theorem piecesEnd_of_run (hfat : sb.fatCnt ≠ 0) (rounds : Nat) : ∀ src offset flat v w result,
    growthOf flat v i = w → (writeFileLoop sb fuel i rounds v src offset).run
      (flatOp sb.partitionStart) flat = .ok result → PiecesEnd sb i rounds src offset w := by
  induction rounds with
  | zero =>
    intro src offset flat v w result _ hrun
    cases hrun
  | succ rounds ih =>
    intro src offset flat v w result hw hrun
    rw [writeFileLoop] at hrun
    by_cases hsrc : 0 < src.length
    · rw [if_pos hsrc] at hrun
      obtain ⟨flat₁, ⟨v₁, r⟩, hfind, hrest⟩ := Prog.ok_of_run_bind _ hrun
      refine .inr ((findOrAppend_reaches hfat offset fuel flat v w hw hfind).mono ?_)
      intro w₁ hend
      rcases hend with ⟨-, hfull⟩ | ⟨c, rfl, hc, hw₁⟩
      · exact .inl hfull
      · -- the piece is written, and the loop goes on behind it
        obtain ⟨flat₂, _, hwrite, hmore⟩ := Prog.ok_of_run_bind _ hrest
        cases hwrite
        obtain ⟨flat₃, _, hloop, -⟩ := Prog.ok_of_run_bind _ hmore
        refine .inr ⟨c, hc, ih _ _ _ v₁ _ _ ?_ hloop⟩
        rw [← hw₁]
        rfl
    · exact .inl (List.length_eq_zero_iff.mp (Nat.eq_zero_of_not_pos hsrc))

/-- The loop of `writeFile` comes to its end, with rounds enough. -/
theorem PiecesEnd.run (hfat : sb.fatCnt ≠ 0) (rounds : Nat) : ∀ src offset w,
    PiecesEnd sb i rounds src offset w → ∃ more, ∀ fuel, more ≤ fuel → ∀ flat v,
      growthOf flat v i = w → ∃ result, (writeFileLoop sb fuel i rounds v src offset).run
        (flatOp sb.partitionStart) flat = .ok result := by
  induction rounds with
  | zero => exact fun _ _ _ h => h.elim
  | succ rounds ih =>
    intro src offset w h
    by_cases hsrc : 0 < src.length
    · have hne : src ≠ [] := List.ne_nil_of_length_pos hsrc
      obtain ⟨k, hgood, hend⟩ := h.resolve_left hne
      rcases hend with hfull | ⟨c, hc, hrest⟩
      · refine ⟨max (k + 1) (entryValues sb.fatType), fun fuel hfuel flat v hw => ?_⟩
        obtain ⟨flat', v', hfind⟩ := (findOrAppend_ends_of hfat (show _ ≤ fuel by omega) offset k fuel
          flat v w (show k < fuel by omega) hw hgood).1 hfull
        rw [writeFileLoop, if_pos hsrc, Prog.run_bind_ok _ hfind]
        exact ⟨_, rfl⟩
      · obtain ⟨more, hmore⟩ := ih _ _ _ hrest
        refine ⟨max (max (k + 1) (entryValues sb.fatType)) more, fun fuel hfuel flat v hw => ?_⟩
        obtain ⟨flat', v', hfind, hw'⟩ := (findOrAppend_ends_of hfat (show _ ≤ fuel by omega) offset k
          fuel flat v w (show k < fuel by omega) hw hgood).2 c hc
        obtain ⟨result, hloop⟩ := hmore fuel (by omega) (ringPatch flat' (byteOf sb.partitionStart
          (sectorInCluster sb c offset) (sectorOffset offset))
          (src.take (transferNbytes src.length (offset % 512)))) v' (by rw [← hw']; rfl)
        rw [writeFileLoop, if_pos hsrc, Prog.run_bind_ok _ hfind]
        exact ⟨_, Prog.run_bind_ok _ hloop _⟩
    · refine ⟨0, fun fuel _ flat v _ => ?_⟩
      rw [writeFileLoop, if_neg hsrc]
      exact ⟨_, rfl⟩

end Pieces

/-! ## `writeFile` -/

section WriteFile

variable (sb : FatSb) (flat : Nat → UInt8)

/-- What is cleared in front of a write behind the end stays in the sector of the write, where
the file has a cluster for it. -/
def ClearEnds (node : FatNode) (offset : Nat) : Prop :=
  node.dirent.size < offset →
    chainNth sb flat (node.dirent.size / sb.clusterSize) (chainStart sb node) ≠ none →
      offset % 512 + (sb.clusterSize - node.dirent.size % sb.clusterSize) ≤ 512

/-- The bytes of the volume when this has been cleared. -/
def cleared (node : FatNode) (offset : Nat) : Nat → UInt8 :=
  if node.dirent.size < offset then
    match chainNth sb flat (node.dirent.size / sb.clusterSize) (chainStart sb node) with
    | none => flat
    | some cluster => ringPatch flat
      (byteOf sb.partitionStart (sectorInCluster sb cluster offset) (sectorOffset offset))
      (List.replicate (sb.clusterSize - node.dirent.size % sb.clusterSize) 0)
  else flat

/-- What has to hold for `writeFile` to end. -/
def WriteEnds (v : Vol) (i offset : Nat) (src : List UInt8) : Prop :=
  ClearEnds sb flat (v.nodes i) offset ∧ PiecesEnd sb i (src.length + 1) src offset
    (growthOf (cleared sb flat (v.nodes i) offset) v i)

variable {sb} {flat} {i : Nat} {v : Vol}

theorem clearBehind_cleared (hfat : sb.fatCnt ≠ 0) (node : FatNode) (offset : Nat) :
    (ClearEnds sb flat node offset → (clearBehind sb node offset).run (flatOp sb.partitionStart)
      flat = .ok (cleared sb flat node offset, ())) ∧
    (¬ ClearEnds sb flat node offset → (clearBehind sb node offset).run (flatOp sb.partitionStart)
      flat = .error .wildPointer) := by
  unfold ClearEnds clearBehind cleared
  by_cases hgap : node.dirent.size < offset
  · have hfind := @findCluster_flat sb flat hfat node node.dirent.size
    rw [← chainStart] at hfind
    rw [if_pos hgap, if_pos hgap, Prog.run_bind_ok _ hfind]
    cases chainNth sb flat (node.dirent.size / sb.clusterSize) (chainStart sb node) with
    | none => exact ⟨fun _ => rfl, fun hnot => absurd (fun _ h => absurd rfl h) hnot⟩
    | some cluster =>
      dsimp only
      rw [FatM.clearSector, Prog.run_op, flatOp]
      constructor
      · intro h
        exact if_pos (h hgap (Option.some_ne_none _))
      · intro hnot
        exact if_neg fun hfits => hnot fun _ _ => hfits
  · rw [if_neg hgap, if_neg hgap]
    exact ⟨fun _ => rfl, fun hnot => absurd (fun h => absurd h hgap) hnot⟩

/-- `writeFile` ends exactly if what it clears fits the sector and the walk of each piece comes
to its end. -/
theorem writeFile_ends_iff (hfat : sb.fatCnt ≠ 0) (src : List UInt8) (offset : Nat) :
    (∃ fuel result, (writeFile sb fuel v i src offset).run (flatOp sb.partitionStart) flat =
      .ok result) ↔ WriteEnds sb flat v i offset src := by
  obtain ⟨hclear, hwild⟩ := @clearBehind_cleared sb flat hfat (v.nodes i) offset
  constructor
  · intro ⟨fuel, result, hrun⟩
    by_cases hfits : ClearEnds sb flat (v.nodes i) offset
    · unfold writeFile at hrun
      rw [Prog.run_bind_ok _ (hclear hfits)] at hrun
      obtain ⟨flat₁, r, hloop, -⟩ := Prog.ok_of_run_bind _ hrun
      exact ⟨hfits, piecesEnd_of_run hfat _ _ _ _ _ _ _ rfl hloop⟩
    · unfold writeFile at hrun
      rw [Prog.run_bind_error _ (hwild hfits)] at hrun
      cases hrun
  · intro ⟨hfits, hpieces⟩
    obtain ⟨fuel, hfuel⟩ := hpieces.run hfat
    obtain ⟨⟨flat₁, v₁, written, last⟩, hloop⟩ := hfuel fuel (Nat.le_refl _) _ v rfl
    unfold writeFile
    refine ⟨fuel, ?_⟩
    rw [Prog.run_bind_ok _ (hclear hfits), Prog.run_bind_ok _ hloop]
    cases last with
    | none => exact ⟨_, rfl⟩
    | some last =>
      dsimp only
      split
      · exact ⟨_, rfl⟩
      · exact ⟨_, rfl⟩

/-- A write of one piece ends where the cluster of its offset is there. -/
theorem WriteEnds.of_found {src : List UInt8} {offset : Nat}
    (hin : offset ≤ (v.nodes i).dirent.size) (hone : offset % 512 + src.length ≤ 512)
    (hfound : chainNth sb flat (offset / sb.clusterSize) (chainStart sb (v.nodes i)) ≠ none) :
    WriteEnds sb flat v i offset src := by
  have hsame : cleared sb flat (v.nodes i) offset = flat := if_neg (Nat.not_lt.mpr hin)
  refine ⟨fun hgap => absurd hin (Nat.not_le_of_lt hgap), ?_⟩
  rw [hsame]
  obtain ⟨c, hc⟩ := Option.ne_none_iff_exists'.mp hfound
  by_cases hsrc : src = []
  · exact .inl hsrc
  · refine .inr (.of (.inr ⟨c, hc, ?_⟩))
    -- nothing is left behind the piece
    have hall : transferNbytes src.length (offset % 512) = src.length := by
      unfold transferNbytes
      omega
    obtain ⟨k, hk⟩ := Nat.exists_eq_succ_of_ne_zero (fun h => hsrc (List.length_eq_zero_iff.mp h))
    rw [hall, List.drop_length, hk]
    exact .inl rfl

/-- A write to a file in order ends: with no data, within its clusters, or on a FAT12 or FAT16
volume with clusters appended to those it has. -/
theorem WriteEnds.of_state (hl : DataLayout sb) {cs : List Nat} (h : FileState sb flat v i cs)
    {src : List UInt8} {offset : Nat} (hfits : ClearFits sb (v.nodes i) cs offset)
    (hroom : src = [] ∨ offset + src.length ≤ cs.length * sb.clusterSize ∨
      (sb.fatType ≠ .fat32 ∧ (v.nodes i).isRoot = false ∧ cs ≠ [])) :
    WriteEnds sb flat v i offset src := by
  obtain ⟨flat', r, hrun⟩ := writeFile_ends hl (Nat.le_refl _) h hfits hroom
  exact (writeFile_ends_iff (Nat.ne_of_gt hl.fat_cnt) src offset).mp ⟨_, _, hrun⟩

end WriteFile

end Cheviot.Fatfs
