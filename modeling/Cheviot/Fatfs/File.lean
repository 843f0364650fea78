import Cheviot.Fatfs.Dir

/-!
# Files: `file.c`

`readFile` and `writeFile` go through a file sector by sector, and look for the cluster
of each from the start of the chain. Before it writes behind the end of a file,
`writeFile` clears a part of its last cluster; where the chain ends it appends clusters.

Mirroring notes:
- The device does not fail. The new size of a file stays in its node.
- `fuel` is the number of rounds the loops are given that look for a cluster.
-/

namespace Cheviot.Fatfs

open Cheviot.Bytes

section Functions

variable (sb : FatSb) (fuel : Nat)

/-- The bytes that are moved at a time. -/
def transferNbytes (left sectorOffset : Nat) : Nat := min (min 512 left) (512 - sectorOffset)

/-- The loop of `readFile`, for `left` more bytes. -/
def readFileLoop (node : FatNode) : Nat → Nat → Nat → FatM (List UInt8)
  | 0, _, _ => FatM.fault .hang
  | fuel + 1, left, offset =>
    if 0 < left then do
      match ← findCluster sb node offset with
      | none => return []
      | some cluster =>
        let sector := sectorInCluster sb cluster offset
        let n := transferNbytes left (offset % 512)
        let bytes ← FatM.readSector sector (sectorOffset offset) n
        let rest ← readFileLoop node fuel (left - n) (offset + n)
        return bytes ++ rest
    else return []

/-- `readFile` -/
def readFile (node : FatNode) (count offset : Nat) : FatM (List UInt8) :=
  let count :=
    if node.dirent.size ≤ offset then 0
    else if count < node.dirent.size - offset then count
    else node.dirent.size - offset
  readFileLoop sb node (count + 1) count offset

/-- `FindCluster` in `writeFile`: a cluster is appended until there is one. -/
def findOrAppend (i offset : Nat) : Nat → Vol → FatM (Vol × Option Nat)
  | 0, _ => FatM.fault .hang
  | n + 1, v => do
    match ← findCluster sb (v.nodes i) offset with
    | some cluster => return (v, some cluster)
    | none =>
      let (v, r) ← appendCluster sb fuel v i
      match r with
      | none => return (v, none)
      | some _ => findOrAppend i offset n v

/-- The bytes of one write. -/
def Chunk.take (l : List UInt8) (n : Nat) (h : n ≤ 512) : Chunk :=
  ⟨l.take n, Nat.le_trans (List.length_take_le n l) h⟩

theorem transferNbytes_le (left sectorOffset : Nat) : transferNbytes left sectorOffset ≤ 512 := by
  unfold transferNbytes
  omega

/-- The loop of `writeFile`, for the bytes that are left: how many are written, and the
offset behind them unless no cluster could be appended. -/
def writeFileLoop (i : Nat) : Nat → Vol → List UInt8 → Nat → FatM (Vol × Nat × Option Nat)
  | 0, _, _, _ => FatM.fault .hang
  | rounds + 1, v, src, offset =>
    if 0 < src.length then do
      let (v, r) ← findOrAppend sb fuel i offset fuel v
      match r with
      | none => return (v, 0, none)
      | some cluster =>
        let sector := sectorInCluster sb cluster offset
        let n := transferNbytes src.length (offset % 512)
        FatM.writeSector (.take src n (transferNbytes_le ..)) sector (sectorOffset offset)
        let (v, written, last) ← writeFileLoop i rounds v (src.drop n) (offset + n)
        return (v, n + written, last)
    else return (v, 0, some offset)

/-- What `writeFile` clears before it writes behind the end of a file. -/
def clearBehind (node : FatNode) (offset : Nat) : FatM Unit :=
  if node.dirent.size < offset then do
    match ← findCluster sb node node.dirent.size with
    | none => return ()
    | some cluster =>
      -- from the sector and the offset in it that will be written on, not from the end
      FatM.clearSector (sectorInCluster sb cluster offset) (sectorOffset offset)
        (sb.clusterSize - node.dirent.size % sb.clusterSize)
  else return ()

/-- The node with a new size of its file. -/
def FatNode.withSize (node : FatNode) (size : Nat) : FatNode :=
  { node with dirent := node.dirent.setBytes 28 (leBytes32 size) }

/-- `writeFile`: how many bytes are written. -/
def writeFile (v : Vol) (i : Nat) (src : List UInt8) (offset : Nat) : FatM (Vol × Nat) := do
  clearBehind sb (v.nodes i) offset
  let (v, written, last) ← writeFileLoop sb fuel i (src.length + 1) v src offset
  match last with
  | none => return (v, written)
  | some offset =>
    if (v.nodes i).dirent.size < offset then
      return (v.setNode i ((v.nodes i).withSize offset), written)
    else return (v, written)

end Functions

/-! ## What they call and return -/

section Meets

variable {sb : FatSb} {fuel : Nat}

/-- `writeFile` changes no more than the entry and the hints of the node. -/
theorem findOrAppend_keeps (i offset : Nat) (n : Nat) : ∀ v,
    (findOrAppend sb fuel i offset n v).Meets (fun _ => True) fun r => Keeps v r.1 := by
  induction n with
  | zero => exact fun _ => .fail _
  | succ n ih =>
    intro v
    rw [findOrAppend]
    refine .bind (.any _) fun r _ => ?_
    cases r with
    | some cluster => exact .pure (.refl v)
    | none =>
      refine .bind (appendCluster_keeps v i) fun r hkeeps => ?_
      obtain ⟨v', r⟩ := r
      cases r with
      | none => exact .pure hkeeps
      | some cluster => exact (ih v').mono fun r hr => hkeeps.trans hr

theorem writeFileLoop_keeps (i : Nat) (rounds : Nat) : ∀ v src offset,
    (writeFileLoop sb fuel i rounds v src offset).Meets (fun _ => True) fun r => Keeps v r.1 := by
  induction rounds with
  | zero => exact fun _ _ _ => .fail _
  | succ rounds ih =>
    intro v src offset
    rw [writeFileLoop]
    split
    · refine .bind (findOrAppend_keeps i offset fuel v) fun r hkeeps => ?_
      obtain ⟨v', r⟩ := r
      cases r with
      | none => exact .pure hkeeps
      | some cluster =>
        refine .bind (.any _) fun _ _ => .bind (ih v' _ _) fun r hr => .pure ?_
        exact hkeeps.trans hr
    · exact .pure (.refl v)

theorem writeFile_keeps (v : Vol) (i : Nat) (src : List UInt8) (offset : Nat) :
    (writeFile sb fuel v i src offset).Meets (fun _ => True) fun r => Keeps v r.1 := by
  unfold writeFile
  refine .bind (.any _) fun _ _ => .bind (writeFileLoop_keeps i _ v src offset) fun r hkeeps => ?_
  obtain ⟨v', written, last⟩ := r
  cases last with
  | none => exact .pure hkeeps
  | some last =>
    show Prog.Meets _ _ (if _ then _ else _)
    split
    · exact .pure (hkeeps.trans (Keeps.setNode v' i _ _ _))
    · exact .pure hkeeps

end Meets

end Cheviot.Fatfs
