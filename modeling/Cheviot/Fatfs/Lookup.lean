import Cheviot.Fatfs.Dir

/-!
# Nodes and directory entries over a run of lookups

A node is known by the first cluster of its file alone. `lookup` takes a node on the list
that has this number for the node of the entry it has found, puts the entry into it, and
leaves the location of the entry as it was: the root for every empty file and every `..`
of a directory in the root, one node for two entries with the same cluster.

The nodes given so far are carried along, each with the location of its entry (`Given`). A
lookup takes a node of the list or a new one: in the first case the condition says whose it is,
in the second it is none of those given.

* `LookupOk` — the node that a lookup gives is that of the entry it has found, and none of those
  given for other entries.
* `LookupOwn` — a node that has the number is the node of the entry.
* `lookups_ok` — in a run where it always is, every lookup gives the node of its entry.
-/

namespace Cheviot.Fatfs

open Cheviot.Bytes

/-- Where the entry of a node is. -/
def FatNode.location (node : FatNode) : Nat × Fin 512 := (node.direntSector, node.direntOffset)

section Specs

variable (sb : FatSb) (flat : Nat → UInt8)

/-- The first entry of a name in the directory of a node. -/
def EntryOf (v : Vol) (dir : Nat) (name : List UInt8) (loc : Nat × Fin 512) : Prop :=
  EntryIn sb flat (decide (dir = rootNode)) (getFirstCluster sb (v.nodes dir).dirent) name loc

/-- The node `i` a lookup gives has the entry of the name and its location. The nodes `given`
before are others, unless they were for this entry, and no other node has changed. -/
structure LookupOk (v v' : Vol) (given : List ((Nat × Fin 512) × Nat)) (dir : Nat)
    (name : List UInt8) (i : Nat) (loc : Nat × Fin 512) : Prop where
  entry : EntryOf sb flat v dir name loc
  dirent : (v'.nodes i).dirent = direntAt sb flat loc
  location : (v'.nodes i).location = loc
  distinct : ∀ p ∈ given, p.1 ≠ loc → p.2 ≠ i
  others : ∀ j, j ≠ i → (v'.nodes j).dirent = (v.nodes j).dirent ∧
    (v'.nodes j).location = (v.nodes j).location ∧ (v'.nodes j).inodeNr = (v.nodes j).inodeNr

/-- The node of the directory knows whether it is the root, and a node that has the first
cluster of the entry for its inode number is where the entry is. -/
structure LookupOwn (v : Vol) (dir : Nat) (name : List UInt8) : Prop where
  is_root : (v.nodes dir).isRoot = decide (dir = rootNode)
  own : ∀ loc, EntryOf sb flat v dir name loc → ∀ i,
    (findNode v (getFirstCluster sb (direntAt sb flat loc))).2 = some i →
      (v.nodes i).location = loc

end Specs

section Runs

variable (env : Env) (sb : FatSb) (fuel : Nat) (flat : Nat → UInt8)

/-- A run of lookups each of which gives the node of its entry. -/
def LookupsOk : Cache → Vol → List ((Nat × Fin 512) × Nat) → List (Nat × List UInt8) → Prop
  | _, _, _, [] => True
  | c, v, given, (dir, name) :: calls => ∀ c' v' r,
    (lookup env sb fuel v dir name).run (cacheOp sb.partitionStart) c = .ok (c', v', r) →
      match r with
      | none => LookupsOk c' v' given calls
      | some i => ∃ loc, LookupOk sb flat v v' given dir name i loc ∧
        LookupsOk c' v' ((loc, i) :: given) calls

/-- A run of lookups none of which comes upon the node of another entry. -/
def LookupsOwn : Cache → Vol → List (Nat × List UInt8) → Prop
  | _, _, [] => True
  | c, v, (dir, name) :: calls => ∀ c' v' r,
    (lookup env sb fuel v dir name).run (cacheOp sb.partitionStart) c = .ok (c', v', r) →
      LookupOwn sb flat v dir name ∧ LookupsOwn c' v' calls

variable {env} {sb} {fuel} {flat} {v v' : Vol} {given : List ((Nat × Fin 512) × Nat)}

/-- The nodes given so far are where their entries are, and no new node will be one of them. -/
structure Given (v : Vol) (given : List ((Nat × Fin 512) × Nat)) : Prop where
  listed : ∀ i ∈ v.nodeList, i < v.nextNode
  allocated : ∀ p ∈ given, p.2 < v.nextNode
  location : ∀ p ∈ given, (v.nodes p.2).location = p.1

/-- The node of an entry, where none is taken for it that is not. -/
theorem Given.lookupNode (h : Given v given) {dirent : FatDirEntry} {loc : Nat × Fin 512} {i : Nat}
    (hown : ∀ i, (findNode v (getFirstCluster sb dirent)).2 = some i → (v.nodes i).location = loc)
    (hnode : (v', some i) = lookupNode env sb v dirent loc.1 loc.2) :
    Given v' ((loc, i) :: given) ∧ (v'.nodes i).dirent = dirent ∧
      (∀ p ∈ given, p.1 ≠ loc → p.2 ≠ i) ∧ ∀ j, j ≠ i → v'.nodes j = v.nodes j := by
  rcases lookupNode_cases env sb v dirent loc.1 loc.2 with
    ⟨-, hnone⟩ | ⟨-, ⟨i', hfind, hi, hsome⟩ | ⟨-, hnew⟩⟩
  · rw [hnone] at hnode
    cases hnode
  · rw [hsome] at hnode
    cases hnode
    -- a node on the list keeps its place
    have hloc := hown i hfind
    have hsame : ∀ node : FatNode, node.location = (v.nodes i).location → ∀ j,
        ((v.setNode i node).nodes j).location = (v.nodes j).location := by
      intro node hnode j
      rw [Vol.setNode_apply]
      split
      next hj =>
        rw [hj]
        exact hnode
      · rfl
    refine ⟨⟨h.listed, fun p hp => ?_, fun p hp => ?_⟩, ?_, fun p hp hne hpi => hne ?_,
      fun j hj => ?_⟩
    · rcases List.mem_cons.mp hp with rfl | hp
      · exact h.listed i hi
      · exact h.allocated p hp
    · rcases List.mem_cons.mp hp with rfl | hp
      · refine (hsame _ ?_ i).trans hloc
        rfl
      · refine (hsame _ ?_ p.2).trans (h.location p hp)
        rfl
    · rw [Vol.setNode_apply, if_pos rfl]
    · rw [← h.location p hp, hpi, hloc]
    · rw [Vol.setNode_apply, if_neg hj]
  · rw [hnew] at hnode
    cases hnode
    -- a new node is another than all before
    have hold : ∀ node j, j < v.nextNode → (v.addNode node).nodes j = v.nodes j := by
      intro node j hj
      rw [Vol.addNode_apply, if_neg (Nat.ne_of_lt hj)]
    refine ⟨⟨fun j hj => ?_, fun p hp => ?_, fun p hp => ?_⟩, ?_, fun p hp _ => ?_, fun j hj => ?_⟩
    · rcases List.mem_append.mp hj with hj | hj
      · exact Nat.lt_succ_of_lt (h.listed j hj)
      · rw [List.mem_singleton.mp hj]
        exact Nat.lt_succ_self _
    · rcases List.mem_cons.mp hp with rfl | hp
      · exact Nat.lt_succ_self _
      · exact Nat.lt_succ_of_lt (h.allocated p hp)
    · rcases List.mem_cons.mp hp with rfl | hp
      · rw [Vol.addNode_apply, if_pos rfl]
        rfl
      · rw [hold _ p.2 (h.allocated p hp)]
        exact h.location p hp
    · rw [Vol.addNode_apply, if_pos rfl]
    · exact Nat.ne_of_lt (h.allocated p hp)
    · rw [Vol.addNode_apply, if_neg hj]

/-- A lookup that comes upon no node of another entry. -/
theorem lookup_ok (hfat : sb.fatCnt ≠ 0) (h : Given v given) {dir : Nat} {name : List UInt8}
    (hown : LookupOwn sb flat v dir name) {c c' : Cache} {r : Option Nat} (hc : Stands c flat)
    (hrun : (lookup env sb fuel v dir name).run (cacheOp sb.partitionStart) c =
      .ok (c', v', r)) :
    Stands c' flat ∧ ((v' = v ∧ r = none) ∨ ∃ i loc, r = some i ∧
      Given v' ((loc, i) :: given) ∧ LookupOk sb flat v v' given dir name i loc) := by
  obtain ⟨flat', hflat, hc'⟩ :=
    (run_cache_flat sb.partitionStart (lookup env sb fuel v dir name) hc).of_ok hrun
  rcases lookup_flat env hfat v dir name fuel with hhang | ⟨-, hnone⟩ | ⟨loc, hentry, hnode⟩
  · rw [hhang] at hflat
    cases hflat
  · rw [hnone] at hflat
    cases hflat
    exact ⟨hc', .inl ⟨rfl, rfl⟩⟩
  · rw [hnode] at hflat
    rw [hown.is_root] at hentry
    injection hflat with hflat
    injection hflat with hflat hnode
    subst hflat
    refine ⟨hc', ?_⟩
    cases r with
    -- the entry of a file without clusters gives no node
    | none =>
      rcases lookupNode_cases env sb v (direntAt sb flat loc) loc.1 loc.2 with
        ⟨-, hnone⟩ | ⟨-, ⟨i, -, -, hsome⟩ | ⟨-, hnew⟩⟩
      · rw [hnone] at hnode
        cases hnode
        exact .inl ⟨rfl, rfl⟩
      · rw [hsome] at hnode
        cases hnode
      · rw [hnew] at hnode
        cases hnode
    | some i =>
      obtain ⟨hgiven, hdirent, hdistinct, hothers⟩ :=
        h.lookupNode (hown.own loc hentry) hnode.symm
      refine .inr ⟨i, loc, rfl, hgiven, hentry, hdirent,
        hgiven.location _ (List.mem_cons_self ..), hdistinct, fun j hj => ?_⟩
      rw [hothers j hj]
      exact ⟨rfl, rfl, rfl⟩

/-- A run of lookups from any nodes, whatever is on the device. -/
theorem lookups_ok_of_given (hfat : sb.fatCnt ≠ 0) (calls : List (Nat × List UInt8)) :
    ∀ {c : Cache} {v : Vol} {given : List ((Nat × Fin 512) × Nat)}, Stands c flat → Given v given →
      LookupsOwn env sb fuel flat c v calls → LookupsOk env sb fuel flat c v given calls := by
  induction calls with
  | nil => exact fun _ _ _ => trivial
  | cons call calls ih =>
    obtain ⟨dir, name⟩ := call
    intro c v given hc h hown c' v' r hrun
    obtain ⟨hown₁, hrest⟩ := hown c' v' r hrun
    obtain ⟨hc', ⟨rfl, rfl⟩ | ⟨i, loc, rfl, hgiven, hok⟩⟩ := lookup_ok hfat h hown₁ hc hrun
    · exact ih hc' h hrest
    · exact ⟨loc, hok, ih hc' hgiven hrest⟩

/-- A run of lookups from the mount on, on a cache that stands for any content of the
device: as long as each is in a directory that knows whether it is the root, and comes upon
no node of another entry, every node that is given has the entry of its name and the location
of this entry, no two entries share one, and no other node changes. -/
theorem lookups_ok (hfat : sb.fatCnt ≠ 0) {c : Cache} (hc : Stands c flat)
    {calls : List (Nat × List UInt8)} (hown : LookupsOwn env sb fuel flat c initVol calls) :
    LookupsOk env sb fuel flat c initVol [] calls := by
  refine lookups_ok_of_given hfat calls hc ⟨fun i hi => ?_, fun p hp => (nomatch hp),
    fun p hp => (nomatch hp)⟩ hown
  rw [List.mem_singleton.mp hi]
  exact show 0 < 1 by decide

end Runs

/-! ## A directory with one name -/

/-- A device whose directories have one entry each, the name of which is of one letter, which
makes out the attributes too. Cluster 2 is the only one that is used. -/
def sampleDev (letter firstCluster : UInt8) : Nat → Buf := fun block i =>
  if block = 2 then if i < 6 then 0xff else 0
  else if 22 ≤ block then if i < 20 then letter else if i = 26 then firstCluster else 0
  else 0

/-- The bytes a cache of the device stands for. -/
def sampleFlat (letter firstCluster : UInt8) (a : Nat) : UInt8 :=
  sampleDev letter firstCluster (a / 512) (a % 512)

/-- A name of one letter. -/
def sampleName (letter : UInt8) : List UInt8 :=
  List.replicate 8 letter ++ ['.'.toUInt8] ++ List.replicate 3 letter

/-- A name that is in the first slot of the root is there first. -/
theorem sampleFat16_entry {flat : Nat → UInt8} {first : Nat} {name : List UInt8}
    {loc : Nat × Fin 512} (hnamed : fatCmpDirent (direntAt sampleFat16 flat (21, 0)) name = true)
    (h : EntryIn sampleFat16 flat true first name loc) : loc = (21, 0) :=
  h.unique ⟨0, rfl, hnamed, fun _ hj => absurd hj (Nat.not_lt_zero _)⟩

/-- `lookups_ok` at a lookup of this name. -/
theorem lookups_ok_sample : ∃ c, createCache (sampleDev 'A'.toUInt8 2) 1 512 true 5 = some c ∧
    LookupsOk sampleEnv sampleFat16 5 (sampleFlat 'A'.toUInt8 2) c initVol []
      [(rootNode, sampleName 'a'.toUInt8)] := by
  have hcreate : createCache (sampleDev 'A'.toUInt8 2) 1 512 true 5 = some _ := rfl
  refine ⟨_, hcreate, lookups_ok (by decide) (createCache_stands hcreate).1
    fun c' v' r _ => ⟨⟨rfl, fun loc hloc i hi => ?_⟩, trivial⟩⟩
  rw [sampleFat16_entry (by decide) hloc] at hi
  cases hi

/-- The root is given for an empty file. -/
theorem empty_lookups_not_ok : ∃ c, createCache (sampleDev 'A'.toUInt8 0) 1 512 true 5 = some c ∧
    ¬ LookupsOk sampleEnv sampleFat16 5 (sampleFlat 'A'.toUInt8 0) c initVol []
      [(rootNode, sampleName 'a'.toUInt8)] := by
  refine ⟨_, rfl, fun h => ?_⟩
  obtain ⟨loc, hok, -⟩ := h _ _ (some rootNode) rfl
  have hloc : (0, 0) = loc := hok.location
  have hentry := sampleFat16_entry (by decide) hok.entry
  rw [← hloc] at hentry
  exact absurd hentry (by decide)

end Cheviot.Fatfs
