import Cheviot.Fatfs.Growth
import Cheviot.Fatfs.Mkdir
import Cheviot.Fatfs.Rmdir

/-!
# One reply to a request

Each handler sends its reply at its end; that of `CMD_CREATE` is followed by the one of
`fatRead`. A handler that does not come to its end sends none. `fatUnlink` has status 0
exactly where it removes; `fatRmDir` has not when it does, and `fatMkDir` has status 0
where nothing has been made.

Whether a handler comes to its end is taken from the modules before: a scan of a directory
from `Ends`, a write from `Growth`, the freeing of a chain from `Rounds`. What is left is what
it replies, and for `fatMkDir` that nothing new is there (`Mkdir`).

* `Answers` — one reply to a message, and its status.
* `Answerable` — the messages for which this is so, by the volume before them.
* `Exact` — all messages but those for a directory in a parent that is out of order.
* `handle_answers` — the answerable ones are answered; of the exact ones, only these.
-/

namespace Cheviot.Fatfs

open Cheviot.Bytes Cheviot.Walk

/-! ## What a message is answered with -/

section Specs

variable (env : Env) (sb : FatSb) (flat : Nat → UInt8)

/-- The name in the directory of a request is that of the entry at a location. -/
def Names (v : Vol) (n : Nat) (name : List UInt8) (loc : Nat × Fin 512) : Prop :=
  ∃ v₁ dir, findNode v n = (v₁, some dir) ∧ EntryIn sb flat (v.nodes dir).isRoot
    (getFirstCluster sb (v.nodes dir).dirent) name loc

/-- The entry of the name has been deleted. -/
def Removed (flat' : Nat → UInt8) (v : Vol) (n : Nat) (name : List UInt8) : Prop :=
  ∃ loc, Names sb flat v n name loc ∧
    flat' (byteOf sb.partitionStart loc.1 loc.2) = direntryDeleted

/-- The directory has got an entry of the name, which is that of a directory. -/
def Created (flat' : Nat → UInt8) (v : Vol) (n : Nat) (name : List UInt8) : Prop :=
  (∃ loc, Names sb flat' v n name loc ∧
    (direntAt sb flat' loc).attributes &&& attrDirectory ≠ 0) ∧
  ∀ loc, ¬ Names sb flat v n name loc

/-- The status of a reply tells what has been done. -/
def StatusOk (flat' : Nat → UInt8) (v : Vol) (reply : Reply) : Message → Prop
  | .mkdir n name => reply.status = 0 ↔ Created sb flat flat' v n name
  | .unlink n name => reply.status = 0 ↔ Removed sb flat flat' v n name
  | .rmdir n name => reply.status = 0 ↔ Removed sb flat flat' v n name
  | _ => True

/-- A message gets one reply, with the status it should have. -/
structure Answers (c : Cache) (v : Vol) (req : Message) : Prop where
  ends : ∃ fuel c' r, (handle env sb fuel v req).run (cacheOp sb.partitionStart) c = .ok (c', r)
  replies : ∀ fuel c' v' replies flat',
    (handle env sb fuel v req).run (cacheOp sb.partitionStart) c = .ok (c', v', replies) →
      Stands c' flat' → ∃ reply, replies = [reply] ∧ StatusOk sb flat flat' v reply req

/-! ## Which messages are answered -/

/-- The name of a request fits the buffer. -/
def NameFits (name : List UInt8) : Prop := name.length + 1 ≤ 256

/-- The scan of the directory of a request comes to a match, or behind the last slot. -/
def ScanEnds (v : Vol) (dir : Nat) (name : List UInt8) : Prop :=
  ∃ slot, ¬ Passes sb flat (v.nodes dir).isRoot (getFirstCluster sb (v.nodes dir).dirent) name slot

/-- `FreeClusters` ends: always on a FAT12 or FAT16 volume, and on a FAT32 volume where the
chain, with the marks that are put behind, comes to an end. -/
def FreeEnds (first : Nat) : Prop :=
  sb.fatType ≠ .fat32 ∨ ∃ n, EndsWithin (freeStep sb) Goes n (flat, first)

/-- A file that can be removed: no node on the list has its first cluster. -/
def Unlinkable (v : Vol) (dirent : FatDirEntry) : Prop :=
  dirent.attributes &&& attrDirectory = 0 ∧
    ∀ i ∈ v.nodeList, (v.nodes i).inodeNr ≠ getFirstCluster sb dirent

/-- What has to hold for a message to be answered as it should be. -/
def Answerable (v : Vol) : Message → Prop
  | .lookup n name => NameFits name ∧ ∀ v₁ dir, findNode v n = (v₁, some dir) →
      ScanEnds sb flat v dir name
  | .close _ | .read .. | .mknod | .rename => True
  | .create .. | .unknown => False
  | .write n offset data => ∀ v₁ node, findNode v n = (v₁, some node) →
      data.length ≤ 512 ∧ WriteEnds sb flat v₁ node offset data
  | .readdir n offset _ => ∃ v₁ node, findNode v n = (v₁, some node) ∧
      ∃ k, EndsIn env sb flat (v₁.nodes node) offset 0 k
  | .unlink n name => ∀ v₁ dir, findNode v n = (v₁, some dir) → NameFits name ∧
      ScanEnds sb flat v dir name ∧ ∀ loc, Names sb flat v n name loc →
        Unlinkable sb v (direntAt sb flat loc) →
          FreeEnds sb flat (getFirstCluster sb (direntAt sb flat loc))
  | .rmdir n name => ∀ v₁ dir, findNode v n = (v₁, some dir) → NameFits name ∧
      ScanEnds sb flat v dir name ∧ ∀ loc, Target sb flat v n name loc →
        Kept env sb flat v (getFirstCluster sb (direntAt sb flat loc)) ∨
          getFirstCluster sb (direntAt sb flat loc) = clusterEoc ∨
          getFirstCluster sb (direntAt sb flat loc) = clusterBad
  | .mkdir _ name => NameFits name ∧
      fatASCIIZToDirEntry env.charSigned env.stackDirent name = none

end Specs

/-! ## One reply -/

section Handlers

variable {env : Env} {sb : FatSb} {flat : Nat → UInt8} {v : Vol} {fuel : Nat}

/-- A handler sends one reply. -/
abbrev OneReply (p : Handled) : Prop :=
  p.Meets (fun _ => True) fun r => ∃ reply, r.2 = [reply]

theorem replymsg_one (v : Vol) (status : Int) (args : ReplyArgs) (sent : Sent) :
    OneReply (replymsg v status args sent) := .pure ⟨_, rfl⟩

/-- A request by a name sends one reply if its action does. -/
theorem byName_one {n : Nat} {name : List UInt8} {act : Vol → Nat → Nat → Handled}
    (h : ∀ v parent i, OneReply (act v parent i)) :
    OneReply (byName env sb fuel v n name act) := by
  unfold byName
  rcases findNode v n with ⟨v₁, _ | parent⟩
  · exact replymsg_one ..
  · refine .bind (.any _) fun _ _ => .bind (.any _) fun r _ => ?_
    rcases r with ⟨v₂, _ | i⟩
    · exact replymsg_one ..
    · exact h v₂ parent i

theorem unlinkNode_one (v : Vol) (parent i : Nat) : OneReply (unlinkNode sb fuel v parent i) := by
  unfold unlinkNode
  split
  · split
    · exact .bind (.any _) fun _ _ => replymsg_one ..
    · exact replymsg_one ..
  · exact replymsg_one ..

theorem rmDirNode_one (v : Vol) (parent i : Nat) : OneReply (rmDirNode sb fuel v parent i) := by
  unfold rmDirNode
  split
  · split
    · split
      · refine .bind (.any _) fun r _ => ?_
        split
        · exact .bind (.any _) fun _ _ => replymsg_one ..
        · exact replymsg_one ..
      · exact replymsg_one ..
    · exact replymsg_one ..
  · exact replymsg_one ..

theorem fatLookup_one (n : Nat) (name : List UInt8) :
    OneReply (fatLookup env sb fuel v n name) := by
  unfold fatLookup
  refine .bind (.any _) fun _ _ => ?_
  rcases findNode v n with ⟨v₁, _ | dir⟩
  · exact replymsg_one ..
  · refine .bind (.any _) fun r _ => ?_
    rcases r with ⟨v₂, _ | i⟩
    · exact replymsg_one ..
    · exact replymsg_one ..

theorem fatRead_one (n offset sz : Nat) : OneReply (fatRead sb v n offset sz) := by
  unfold fatRead
  rcases findNode v n with ⟨v₁, _ | node⟩
  · exact replymsg_one ..
  · exact .bind (.any _) fun _ _ => replymsg_one ..

theorem fatWrite_one (n offset : Nat) (data : List UInt8) :
    OneReply (fatWrite sb fuel v n offset data) := by
  unfold fatWrite
  rcases findNode v n with ⟨v₁, _ | node⟩
  · exact replymsg_one ..
  · show Prog.Meets _ _ (if _ then _ else _)
    split
    · exact .bind (.any _) fun _ _ => replymsg_one ..
    · exact .fail _

theorem fatReadDir_one (n offset nbytes : Nat) :
    OneReply (fatReadDir env sb fuel v n offset nbytes) := by
  unfold fatReadDir
  rcases findNode v n with ⟨v₁, _ | node⟩
  · exact .fail _
  · exact .bind (.any _) fun _ _ => replymsg_one ..

theorem fatMkDir_one (n : Nat) (name : List UInt8) : OneReply (fatMkDir env sb fuel v n name) := by
  unfold fatMkDir
  refine .bind (.any _) fun _ _ => ?_
  rcases findNode v n with ⟨v₁, parent⟩
  dsimp only
  cases fatASCIIZToDirEntry env.charSigned env.stackDirent name with
  | none => exact replymsg_one ..
  | some dirent =>
    cases parent with
    | none => exact .fail _
    | some parent =>
      refine .bind (.any _) fun r _ => ?_
      rcases r with ⟨v₂, _ | ⟨sector, sectorOffset⟩⟩
      · exact replymsg_one ..
      · dsimp only
        rw [allocNode_dirDirent]
        exact .bind (.any _) fun _ _ => replymsg_one ..

/-- Every message but `CMD_CREATE` has no more than one reply. -/
theorem handle_one {req : Message} (h : ∀ n offset sz, req ≠ .create n offset sz) :
    OneReply (handle env sb fuel v req) := by
  cases req with
  | lookup n name => exact fatLookup_one n name
  | close n => exact replymsg_one ..
  | create n offset sz => exact absurd rfl (h n offset sz)
  | read n offset sz => exact fatRead_one n offset sz
  | write n offset data => exact fatWrite_one n offset data
  | readdir n offset nbytes => exact fatReadDir_one n offset nbytes
  | unlink n name => exact byName_one unlinkNode_one
  | rmdir n name => exact byName_one rmDirNode_one
  | mkdir n name => exact fatMkDir_one n name
  | mknod => exact replymsg_one ..
  | rename => exact replymsg_one ..
  | unknown => exact .fail _

end Handlers

/-! ## On the array -/

section Flat

variable {env : Env} {sb : FatSb} {flat : Nat → UInt8} {v : Vol} {c : Cache} {req : Message}

/-- The handler of a message comes to its end. -/
def Ends (env : Env) (sb : FatSb) (flat : Nat → UInt8) (v : Vol) (req : Message) : Prop :=
  ∃ fuel flat' r, (handle env sb fuel v req).run (flatOp sb.partitionStart) flat = .ok (flat', r)

/-- Messages are answered on the cache as on the array it stands for. -/
theorem answers_iff (hc : Stands c flat) : Answers env sb flat c v req ↔
    Ends env sb flat v req ∧ ∀ fuel flat' v' replies,
      (handle env sb fuel v req).run (flatOp sb.partitionStart) flat = .ok (flat', v', replies) →
        ∃ reply, replies = [reply] ∧ StatusOk sb flat flat' v reply req := by
  have hsim := fun fuel => run_cache_flat sb.partitionStart (handle env sb fuel v req) hc
  constructor
  · intro ⟨⟨fuel, c', r, hrun⟩, hreplies⟩
    obtain ⟨flat', hflat, -⟩ := (hsim fuel).of_ok hrun
    refine ⟨⟨fuel, flat', r, hflat⟩, fun fuel flat' v' replies hflat => ?_⟩
    have hfuel := hsim fuel
    rw [hflat] at hfuel
    obtain ⟨c', hrun, hc'⟩ := hfuel
    exact hreplies fuel c' v' replies flat' hrun hc'
  · intro ⟨⟨fuel, flat', r, hflat⟩, hreplies⟩
    constructor
    · have hfuel := hsim fuel
      rw [hflat] at hfuel
      obtain ⟨c', hrun, -⟩ := hfuel
      exact ⟨fuel, c', r, hrun⟩
    · intro fuel c' v' replies flat' hrun hc'
      obtain ⟨flat'', hflat, hc''⟩ := (hsim fuel).of_ok hrun
      obtain rfl := hc''.unique hc'
      exact hreplies fuel _ v' replies hflat

/-- Where the status of the reply tells nothing, it is enough to come to the end. -/
theorem answers_iff_ends (hc : Stands c flat) (hone : ∀ n offset sz, req ≠ .create n offset sz)
    (hstatus : ∀ flat' reply, StatusOk sb flat flat' v reply req) :
    Answers env sb flat c v req ↔ Ends env sb flat v req := by
  rw [answers_iff hc]
  refine and_iff_left fun fuel flat' v' replies hrun => ?_
  obtain ⟨reply, hreply⟩ := (handle_one hone).result hrun
  exact ⟨reply, hreply, hstatus flat' reply⟩

theorem answers_of_ends (hc : Stands c flat) (hone : ∀ n offset sz, req ≠ .create n offset sz)
    (hstatus : ∀ flat' reply, StatusOk sb flat flat' v reply req) (h : Ends env sb flat v req) :
    Answers env sb flat c v req :=
  (answers_iff_ends hc hone hstatus).mpr h

/-- A reference more does not change a directory. -/
theorem findNode_scanEnds {n dir : Nat} {name : List UInt8} {v₁ : Vol} {r : Option Nat}
    (hfind : findNode v n = (v₁, r)) : ScanEnds sb flat v₁ dir name ↔ ScanEnds sb flat v dir name := by
  obtain ⟨-, -, hsame⟩ := findNode_same hfind
  unfold ScanEnds
  rw [hsame dir]

theorem lookup_answerable (hfat : sb.fatCnt ≠ 0) (n : Nat) (name : List UInt8) :
    Ends env sb flat v (.lookup n name) ↔ Answerable env sb flat v (.lookup n name) := by
  show (∃ fuel flat' r, (fatLookup env sb fuel v n name).run _ flat = .ok (flat', r)) ↔ _
  unfold fatLookup
  constructor
  · intro ⟨fuel, flat', r, hrun⟩
    obtain ⟨flat₀, _, hread, hrest⟩ := Prog.ok_of_run_bind _ hrun
    unfold readName at hread
    split at hread
    next hname =>
      cases hread
      refine ⟨hname, fun v₁ dir hfind => ?_⟩
      rw [hfind] at hrest
      obtain ⟨flat₁, r₁, hlookup, -⟩ := Prog.ok_of_run_bind _ hrest
      exact (findNode_scanEnds hfind).mp ((lookup_ends_iff env hfat v₁ dir name).mp
        ⟨fuel, flat₁, r₁, hlookup⟩)
    · cases hread
  · intro ⟨hname, hscan⟩
    rcases hfind : findNode v n with ⟨v₁, _ | dir⟩
    · exact ⟨0, flat, _, (Prog.run_bind_ok _ (readName_flat hname) _).trans rfl⟩
    · obtain ⟨fuel, flat₁, r₁, hlookup⟩ := (lookup_ends_iff env hfat v₁ dir name).mpr
        ((findNode_scanEnds hfind).mpr (hscan v₁ dir hfind))
      obtain ⟨v₂, _ | i⟩ := r₁
      all_goals exact ⟨fuel, flat₁, _, (Prog.run_bind_ok _ (readName_flat hname) _).trans
        ((Prog.run_bind_ok _ hlookup _).trans rfl)⟩

theorem read_ends (hfat : sb.fatCnt ≠ 0) (n offset sz : Nat) :
    Ends env sb flat v (.read n offset sz) := by
  show ∃ fuel flat' r, (fatRead sb v n offset sz).run _ flat = .ok (flat', r)
  unfold fatRead
  rcases findNode v n with ⟨v₁, _ | node⟩
  · exact ⟨0, flat, _, rfl⟩
  · obtain ⟨bytes, hread⟩ := @readFile_ends sb flat hfat (v₁.nodes node) (min sz 0x10000) offset
    dsimp only
    exact ⟨0, flat, _, Prog.run_bind_ok _ hread _⟩

/-- `CMD_CREATE` has two replies. -/
theorem create_not_answered (hfat : sb.fatCnt ≠ 0) (hc : Stands c flat) (n offset sz : Nat) :
    ¬ Answers env sb flat c v (.create n offset sz) := by
  intro h
  obtain ⟨fuel, flat', r, hrun⟩ := @read_ends env sb flat v hfat n offset sz
  obtain ⟨v', replies⟩ := r
  obtain ⟨reply, hreply⟩ := (fatRead_one n offset sz).result hrun
  have hcreate : (handle env sb fuel v (.create n offset sz)).run (flatOp sb.partitionStart) flat =
      .ok (flat', v', [⟨-eNotSup, .none, .bytes []⟩] ++ replies) :=
    Prog.run_bind_ok _ hrun _
  obtain ⟨reply', hone, -⟩ := ((answers_iff hc).mp h).2 fuel flat' v' _ hcreate
  have hreply : replies = [reply] := hreply
  rw [hreply] at hone
  cases hone

theorem readdir_answerable (hfat : sb.fatCnt ≠ 0) (n offset nbytes : Nat) :
    Ends env sb flat v (.readdir n offset nbytes) ↔
      Answerable env sb flat v (.readdir n offset nbytes) := by
  show (∃ fuel flat' r, (fatReadDir env sb fuel v n offset nbytes).run _ flat = .ok (flat', r)) ↔ _
  unfold fatReadDir
  constructor
  · intro ⟨fuel, flat', r, hrun⟩
    rcases hfind : findNode v n with ⟨v₁, _ | node⟩
    · rw [hfind] at hrun
      cases hrun
    · rw [hfind] at hrun
      obtain ⟨flat₁, r₁, hloop, -⟩ := Prog.ok_of_run_bind _ hrun
      exact ⟨v₁, node, hfind, (readDirLoop_ends_iff hfat _ _ _).mp ⟨fuel, flat₁, r₁, hloop⟩⟩
  · intro ⟨v₁, node, hfind, hends⟩
    obtain ⟨fuel, flat₁, r₁, hloop⟩ := (readDirLoop_ends_iff hfat _ _ _).mpr hends
    rw [hfind]
    exact ⟨fuel, flat₁, _, Prog.run_bind_ok _ hloop _⟩

theorem write_answerable (hfat : sb.fatCnt ≠ 0) (n offset : Nat) (data : List UInt8) :
    Ends env sb flat v (.write n offset data) ↔ Answerable env sb flat v (.write n offset data) := by
  show (∃ fuel flat' r, (fatWrite sb fuel v n offset data).run _ flat = .ok (flat', r)) ↔ _
  unfold fatWrite
  constructor
  · intro ⟨fuel, flat', r, hrun⟩ v₁ node hfind
    rw [hfind] at hrun
    dsimp only at hrun
    split at hrun
    next hlen =>
      obtain ⟨flat₁, r₁, hwrite, -⟩ := Prog.ok_of_run_bind _ hrun
      exact ⟨hlen, (writeFile_ends_iff hfat data offset).mp ⟨fuel, _, hwrite⟩⟩
    · cases hrun
  · intro h
    rcases hfind : findNode v n with ⟨v₁, _ | node⟩
    · exact ⟨0, flat, _, rfl⟩
    · obtain ⟨hlen, hends⟩ := h v₁ node hfind
      obtain ⟨fuel, ⟨flat', v', written⟩, hwrite⟩ := (writeFile_ends_iff hfat data offset).mpr hends
      refine ⟨fuel, flat', (v', [⟨written, .none, .bytes []⟩]), ?_⟩
      dsimp only
      rw [if_pos hlen, Prog.run_bind_ok _ hwrite]
      rfl

/-! ## Requests by a name -/

theorem not_removed {n : Nat} {name : List UInt8} : ¬ Removed sb flat flat v n name := by
  intro ⟨loc, ⟨v₁, dir, hfind, hentry⟩, hdeleted⟩
  exact hentry.not_deleted hdeleted

/-- What a request by a name that comes to its end has come through. -/
theorem byName_ends {n fuel : Nat} {name : List UInt8} {act : Vol → Nat → Nat → Handled}
    {flat' : Nat → UInt8} {r : Vol × List Reply} (hfat : sb.fatCnt ≠ 0)
    (hrun : (byName env sb fuel v n name act).run (flatOp sb.partitionStart) flat =
      .ok (flat', r)) :
    ∀ v₁ dir, findNode v n = (v₁, some dir) → NameFits name ∧ ScanEnds sb flat v dir name := by
  intro v₁ dir hfind
  have hlookup : NameFits name → ∀ r, (lookup env sb fuel v₁ dir name).run
      (flatOp sb.partitionStart) flat = .ok (flat, r) → NameFits name ∧ ScanEnds sb flat v dir name :=
    fun hname r hr => ⟨hname, (findNode_scanEnds hfind).mp
      ((lookup_ends_iff env hfat v₁ dir name).mp ⟨fuel, flat, r, hr⟩)⟩
  unfold byName at hrun
  rw [hfind] at hrun
  obtain ⟨flat₀, _, hread, hrest⟩ := Prog.ok_of_run_bind _ hrun
  unfold readName at hread
  split at hread
  next hname =>
    cases hread
    rcases lookup_flat env hfat v₁ dir name fuel with hhang | ⟨-, hnone⟩ | ⟨loc, -, hfound⟩
    · rw [Prog.run_bind_error _ hhang] at hrest
      cases hrest
    · exact hlookup hname _ hnone
    · exact hlookup hname _ hfound
  · cases hread

/-- The slot at which the lookup of a request stops, if there is a directory. -/
theorem exists_slot {n : Nat} {name : List UInt8}
    (h : ∀ v₁ dir, findNode v n = (v₁, some dir) → NameFits name ∧ ScanEnds sb flat v dir name) :
    ∃ slot, ∀ v₁ dir, findNode v n = (v₁, some dir) → NameFits name ∧
      ¬ Passes sb flat (v.nodes dir).isRoot (getFirstCluster sb (v.nodes dir).dirent) name slot := by
  rcases hfind : findNode v n with ⟨v₁, _ | dir⟩
  · exact ⟨0, fun v₁ dir heq => nomatch heq⟩
  · obtain ⟨hname, slot, hslot⟩ := h v₁ dir hfind
    refine ⟨slot, fun v₁' dir' heq => ?_⟩
    cases heq
    exact ⟨hname, hslot⟩

/-- A request by a name comes to its end, with rounds enough, if its action does. -/
theorem byName_ends_of {n slot fuel : Nat} {name : List UInt8} {act : Vol → Nat → Nat → Handled}
    (hfat : sb.fatCnt ≠ 0) (h : ∀ v₁ dir, findNode v n = (v₁, some dir) → NameFits name ∧
      ¬ Passes sb flat (v.nodes dir).isRoot (getFirstCluster sb (v.nodes dir).dirent) name slot)
    (hfuel : slot < fuel)
    (hact : ∀ v₁ dir loc v₂ i, findNode v n = (v₁, some dir) →
      EntryIn sb flat (v.nodes dir).isRoot (getFirstCluster sb (v.nodes dir).dirent) name loc →
      lookupNode env sb v₁ (direntAt sb flat loc) loc.1 loc.2 = (v₂, some i) →
      ∃ flat' r, (act v₂ dir i).run (flatOp sb.partitionStart) flat = .ok (flat', r)) :
    ∃ flat' r, (byName env sb fuel v n name act).run (flatOp sb.partitionStart) flat =
      .ok (flat', r) := by
  rcases byName_flat hfat fuel flat v n name act with
    ⟨-, hok⟩ | ⟨v₁, dir, hfind, ⟨hname, -⟩ | ⟨hname, ⟨hhang, -⟩ | ⟨-, hok⟩ |
      ⟨loc, v₂, i, hentry, -, hnode, hrun⟩⟩⟩
  · exact ⟨flat, _, hok⟩
  · exact absurd (h v₁ dir hfind).1 hname
  · obtain ⟨-, hslot⟩ := h v₁ dir hfind
    obtain ⟨-, -, hsame⟩ := findNode_same hfind
    obtain ⟨r, hrun⟩ := lookup_returns_by env hfat (v := v₁) (by rw [hsame dir]; exact hslot) hfuel
    rw [hhang] at hrun
    cases hrun
  · exact ⟨flat, _, hok⟩
  · rw [hrun]
    exact hact v₁ dir loc v₂ i hfind hentry hnode

/-- The replies to a request by a name have the status they should have if those of its
action do. -/
theorem byName_status {n fuel : Nat} {name : List UInt8} {act : Vol → Nat → Nat → Handled}
    {flat' : Nat → UInt8} {v' : Vol} {replies : List Reply} (hfat : sb.fatCnt ≠ 0)
    (hact : ∀ v₁ dir loc v₂ i, findNode v n = (v₁, some dir) →
      EntryIn sb flat (v.nodes dir).isRoot (getFirstCluster sb (v.nodes dir).dirent) name loc →
      lookupNode env sb v₁ (direntAt sb flat loc) loc.1 loc.2 = (v₂, some i) → fuel ≠ 0 →
      (act v₂ dir i).run (flatOp sb.partitionStart) flat = .ok (flat', v', replies) →
        ∃ reply, replies = [reply] ∧ (reply.status = 0 ↔ Removed sb flat flat' v n name))
    (hrun : (byName env sb fuel v n name act).run (flatOp sb.partitionStart) flat =
      .ok (flat', v', replies)) :
    ∃ reply, replies = [reply] ∧ (reply.status = 0 ↔ Removed sb flat flat' v n name) := by
  rcases byName_flat hfat fuel flat v n name act with
    ⟨-, hok⟩ | ⟨v₁, dir, hfind, ⟨-, herr⟩ | ⟨-, ⟨-, herr⟩ | ⟨-, hok⟩ |
      ⟨loc, v₂, i, hentry, hfuel, hnode, hact'⟩⟩⟩
  · rw [hok] at hrun
    cases hrun
    exact ⟨_, rfl, iff_of_false (show ¬ -eInval = 0 by decide) not_removed⟩
  · rw [herr] at hrun
    cases hrun
  · rw [herr] at hrun
    cases hrun
  · rw [hok] at hrun
    cases hrun
    exact ⟨_, rfl, iff_of_false (show ¬ -eNoEnt = 0 by decide) not_removed⟩
  · rw [hact'] at hrun
    exact hact v₁ dir loc v₂ i hfind hentry hnode hfuel hrun

theorem flushDirent_ends (v : Vol) (i : Nat) :
    ∃ flat', (flushDirent v i).run (flatOp sb.partitionStart) flat = .ok (flat', ()) := by
  unfold flushDirent
  split
  · exact ⟨_, rfl⟩
  · exact ⟨_, rfl⟩

theorem removeNode_ends {fuel i : Nat} {flat₁ : Nat → UInt8}
    (hfree : (freeClusters sb fuel (getFirstCluster sb (v.nodes i).dirent)).run
      (flatOp sb.partitionStart) flat = .ok (flat₁, ())) (parent : Nat) :
    ∃ flat' v', (removeNode sb fuel v parent i).run (flatOp sb.partitionStart) flat =
      .ok (flat', v') := by
  obtain ⟨flat₂, hflush₂⟩ := @flushDirent_ends sb flat₁ (v.setNode i {
    v.nodes i with dirent := (v.nodes i).dirent.setBytes 0 [direntryDeleted] }) parent
  obtain ⟨flat₃, hflush₃⟩ := @flushDirent_ends sb flat₂ (v.setNode i {
    v.nodes i with dirent := (v.nodes i).dirent.setBytes 0 [direntryDeleted] }) i
  unfold removeNode
  rw [Prog.run_bind_ok _ hfree]
  dsimp only
  rw [Prog.run_bind_ok _ hflush₂, Prog.run_bind_ok _ hflush₃]
  exact ⟨flat₃, _, rfl⟩

/-- `fatUnlink` with a node refuses, or removes the entry and tells so. -/
theorem unlinkNode_flat (hcnt : Counted v) {dirent : FatDirEntry} {loc : Nat × Fin 512}
    {i : Nat} {v₂ : Vol} (hnode : lookupNode env sb v dirent loc.1 loc.2 = (v₂, some i))
    (flat : Nat → UInt8) (parent fuel : Nat) :
    (¬ Unlinkable sb v dirent ∧ ∃ v' reply, (unlinkNode sb fuel v₂ parent i).run
      (flatOp sb.partitionStart) flat = .ok (flat, v', [reply]) ∧ reply.status < 0) ∨
    (Unlinkable sb v dirent ∧
      (∀ flat₁, (freeClusters sb fuel (getFirstCluster sb dirent)).run (flatOp sb.partitionStart)
        flat = .ok (flat₁, ()) → ∃ flat' r, (unlinkNode sb fuel v₂ parent i).run
          (flatOp sb.partitionStart) flat = .ok (flat', r)) ∧
      ∀ flat' v' replies, (unlinkNode sb fuel v₂ parent i).run (flatOp sb.partitionStart) flat =
        .ok (flat', v', replies) →
          flat' (byteOf sb.partitionStart loc.1 loc.2) = direntryDeleted ∧
            replies = [⟨0, .none, .bytes []⟩] ∧ ∃ flat₁, (freeClusters sb fuel
              (getFirstCluster sb dirent)).run (flatOp sb.partitionStart) flat =
                .ok (flat₁, ())) := by
  have hdirent := lookupNode_dirent hnode
  unfold unlinkNode
  by_cases hdir : dirent.attributes &&& attrDirectory = 0
  · rw [hdirent, if_pos hdir]
    rcases lookupNode_cases env sb v dirent loc.1 loc.2 with
      ⟨-, hnone⟩ | ⟨-, ⟨j, hfind, hj, hsome⟩ | ⟨hall, hnew⟩⟩
    · rw [hnone] at hnode
      cases hnode
    · -- a node on the list has references besides
      rw [hsome] at hnode
      cases hnode
      have hpos := hcnt.pos i hj
      refine .inl ⟨fun hfree => hfree.2 i hj (findNode_some hfind).2, ?_⟩
      rw [Vol.setNode_apply, if_pos rfl]
      dsimp only
      rw [if_neg (by omega)]
      exact ⟨_, _, rfl, show -eBusy < 0 by decide⟩
    · -- a new node has one
      rw [hnew] at hnode
      cases hnode
      have hi : v.nextNode ≠ rootNode := Nat.ne_of_gt (hcnt.lt rootNode hcnt.root)
      rw [if_pos (by rw [Vol.addNode_apply, if_pos rfl])]
      refine .inr ⟨⟨hdir, hall⟩, fun flat₁ hfree => ?_, fun flat' v' replies hrun => ?_⟩
      · rw [← hdirent] at hfree
        obtain ⟨flat₂, v₂, hremove⟩ := removeNode_ends hfree parent
        exact ⟨flat₂, _, Prog.run_bind_ok _ hremove _⟩
      · obtain ⟨flat₁, v₁, hremove, hreply⟩ := Prog.ok_of_run_bind _ hrun
        cases hreply
        have hdeleted := removeNode_flat hi hremove
        rw [Vol.addNode_apply, if_pos rfl] at hdeleted
        unfold removeNode at hremove
        rw [hdirent] at hremove
        obtain ⟨flat₂, _, hfree, -⟩ := Prog.ok_of_run_bind _ hremove
        exact ⟨hdeleted, rfl, flat₂, hfree⟩
  · rw [hdirent, if_neg hdir]
    exact .inl ⟨fun hfree => hdir hfree.1, _, _, rfl, show -eIsDir < 0 by decide⟩

theorem findNode_unlinkable {n : Nat} {v₁ : Vol} {r : Option Nat} {dirent : FatDirEntry}
    (hfind : findNode v n = (v₁, r)) : Unlinkable sb v₁ dirent ↔ Unlinkable sb v dirent := by
  obtain ⟨hlist, -, hsame⟩ := findNode_same hfind
  have hnr : ∀ i, (v₁.nodes i).inodeNr = (v.nodes i).inodeNr := fun i => by rw [hsame i]
  unfold Unlinkable
  rw [hlist]
  simp only [hnr]

theorem freeEnds_iff (hfat : sb.fatCnt ≠ 0) (first : Nat) : FreeEnds sb flat first ↔
    ∃ fuel flat', (freeClusters sb fuel first).run (flatOp sb.partitionStart) flat =
      .ok (flat', ()) := by
  constructor
  · intro h
    obtain ⟨n, hn⟩ : ∃ n, EndsWithin (freeStep sb) Goes n (flat, first) := by
      rcases h with ht | hn
      · exact ⟨_, markFree_endsWithin hfat ht flat first⟩
      · exact hn
    exact ⟨n + 1, (freeClusters_endsWithin hfat n flat first).mpr hn⟩
  · intro ⟨fuel, flat', hrun⟩
    obtain ⟨n, rfl⟩ : ∃ n, fuel = n + 1 := by
      cases fuel with
      | zero => cases hrun
      | succ n => exact ⟨n, rfl⟩
    exact .inr ⟨n, (freeClusters_endsWithin hfat n flat first).mp ⟨flat', hrun⟩⟩

/-- There is nothing to free without a first cluster. -/
theorem FreeEnds.of_not {first : Nat} (h : ¬ Allocated first) : FreeEnds sb flat first :=
  .inr ⟨0, .of_not (x := (flat, first)) h 0⟩

/-- A chain can be freed where the marks miss the links that are still needed. -/
theorem FreeEnds.of_chain (hl : DataLayout sb) {first : Nat} {cs : List Nat}
    (h : IsChain sb flat first cs) (hmiss : cs.Pairwise MarkMisses) : FreeEnds sb flat first := by
  by_cases ht : sb.fatType = .fat32
  · exact .inr ⟨_, chain_endsWithin hl ht h hmiss⟩
  · exact .inl ht

/-- The file that is removed can be freed. -/
theorem unlink_answered (hfat : sb.fatCnt ≠ 0) (hc : Stands c flat) (hcnt : Counted v) {n : Nat}
    {name : List UInt8} (h : Answerable env sb flat v (.unlink n name)) :
    Answers env sb flat c v (.unlink n name) := by
  refine (answers_iff hc).mpr ⟨?_, fun fuel flat' v' replies hrun => ?_⟩
  · show ∃ fuel flat' r, (byName env sb fuel v n name (unlinkNode sb fuel)).run _ flat =
      .ok (flat', r)
    -- rounds for the file that is removed, if there is one
    obtain ⟨k, hfree⟩ : ∃ k, ∀ loc, Names sb flat v n name loc →
        Unlinkable sb v (direntAt sb flat loc) → ∃ flat₁, (freeClusters sb k (getFirstCluster sb
          (direntAt sb flat loc))).run (flatOp sb.partitionStart) flat = .ok (flat₁, ()) := by
      by_cases hsome : ∃ loc, Names sb flat v n name loc ∧ Unlinkable sb v (direntAt sb flat loc)
      · obtain ⟨loc, ⟨v₁, dir, hfind, hentry⟩, hunlink⟩ := hsome
        obtain ⟨-, -, hends⟩ := h v₁ dir hfind
        obtain ⟨k, flat₁, hrun⟩ := (freeEnds_iff hfat _).mp (hends loc ⟨v₁, dir, hfind, hentry⟩ hunlink)
        refine ⟨k, fun loc' hloc' _ => ⟨flat₁, ?_⟩⟩
        obtain ⟨v₁', dir', hfind', hentry'⟩ := hloc'
        rw [hfind] at hfind'
        cases hfind'
        rw [← hentry.unique hentry']
        exact hrun
      · exact ⟨0, fun loc hloc hunlink => absurd ⟨loc, hloc, hunlink⟩ hsome⟩
    obtain ⟨slot, hslot⟩ := exists_slot fun v₁ dir hfind =>
      have ⟨hname, hscan, _⟩ := h v₁ dir hfind
      ⟨hname, hscan⟩
    refine ⟨slot + 1 + k, byName_ends_of hfat hslot (by omega) fun v₁ dir loc v₂ i hfind hentry hnode => ?_⟩
    rcases unlinkNode_flat (hcnt.findNode hfind) hnode flat dir
      (slot + 1 + k) with ⟨-, v', reply, hrun, -⟩ | ⟨hunlink, hends, -⟩
    · exact ⟨flat, _, hrun⟩
    · obtain ⟨flat₁, hrun⟩ := hfree loc ⟨v₁, dir, hfind, hentry⟩
        ((findNode_unlinkable hfind).mp hunlink)
      exact hends flat₁ (freeClusters_mono hfat (by omega) hrun)
  · refine byName_status hfat (fun v₁ dir loc v₂ i hfind hentry hnode _ hact => ?_) hrun
    rcases unlinkNode_flat (hcnt.findNode hfind) hnode flat dir fuel with
      ⟨-, v'', reply, hrefuse, hneg⟩ | ⟨-, -, hremoved⟩
    · rw [hrefuse] at hact
      cases hact
      exact ⟨reply, rfl, iff_of_false (Int.ne_of_lt hneg) not_removed⟩
    · obtain ⟨hdeleted, hreply, -⟩ := hremoved flat' v' replies hact
      exact ⟨_, hreply, iff_of_true rfl ⟨loc, ⟨v₁, dir, hfind, hentry⟩, hdeleted⟩⟩

/-- What is no directory is refused. -/
theorem rmDirNode_refuses {i parent fuel : Nat}
    (hfile : (v.nodes i).dirent.attributes &&& attrDirectory = 0) :
    ∃ v' reply, (rmDirNode sb fuel v parent i).run (flatOp sb.partitionStart) flat =
      .ok (flat, v', [reply]) ∧ reply.status < 0 := by
  unfold rmDirNode
  rw [if_neg (not_not_intro hfile)]
  split
  · exact ⟨_, _, rfl, show -eNotDir < 0 by decide⟩
  · exact ⟨_, _, rfl, show -eInval < 0 by decide⟩

/-- Where nothing is removed, `fatRmDir` with a node refuses. -/
theorem rmDirNode_kept (hfat : sb.fatCnt ≠ 0) (hcnt : Counted v) {n : Nat} {name : List UInt8}
    (h : Answerable env sb flat v (.rmdir n name)) {v₁ v₂ : Vol} {dir i : Nat}
    {loc : Nat × Fin 512} (hfind : findNode v n = (v₁, some dir))
    (hentry : EntryIn sb flat (v.nodes dir).isRoot (getFirstCluster sb (v.nodes dir).dirent) name loc)
    (hnode : lookupNode env sb v₁ (direntAt sb flat loc) loc.1 loc.2 = (v₂, some i)) (fuel : Nat) :
    ∃ v' reply, (rmDirNode sb (fuel + 1) v₂ dir i).run (flatOp sb.partitionStart) flat =
      .ok (flat, v', [reply]) ∧ reply.status < 0 := by
  by_cases hdir : (direntAt sb flat loc).attributes &&& attrDirectory = 0
  · rw [← lookupNode_dirent hnode] at hdir
    exact rmDirNode_refuses hdir
  · rcases rmDirNode_flat hfat (hcnt.findNode hfind) hdir hnode dir fuel with
      ⟨-, hrefuse⟩ | ⟨hnot, -⟩
    · exact hrefuse
    · obtain ⟨-, -, hkept⟩ := h v₁ dir hfind
      rcases hkept loc ⟨⟨v₁, dir, hfind, hentry⟩, hdir⟩ with hkept | hmark
      · exact absurd ((findNode_kept hfind).mpr hkept) hnot
      · rcases lookupNode_cases env sb v₁ (direntAt sb flat loc) loc.1 loc.2 with
          ⟨-, hnone⟩ | ⟨hmark', -⟩
        · rw [hnone] at hnode
          cases hnode
        · exact absurd hmark hmark'

theorem rmdir_answered (hfat : sb.fatCnt ≠ 0) (hc : Stands c flat) (hcnt : Counted v) {n : Nat}
    {name : List UInt8} (h : Answerable env sb flat v (.rmdir n name)) :
    Answers env sb flat c v (.rmdir n name) := by
  refine (answers_iff hc).mpr ⟨?_, fun fuel flat' v' replies hrun => ?_⟩
  · show ∃ fuel flat' r, (byName env sb fuel v n name (rmDirNode sb fuel)).run _ flat =
      .ok (flat', r)
    obtain ⟨slot, hslot⟩ := exists_slot fun v₁ dir hfind =>
      have ⟨hname, hscan, _⟩ := h v₁ dir hfind
      ⟨hname, hscan⟩
    refine ⟨slot + 1, byName_ends_of hfat hslot (Nat.lt_succ_self _)
      fun v₁ dir loc v₂ i hfind hentry hnode => ?_⟩
    obtain ⟨v', reply, hrun, -⟩ := rmDirNode_kept hfat hcnt h hfind hentry hnode slot
    exact ⟨flat, _, hrun⟩
  · refine byName_status hfat (fun v₁ dir loc v₂ i hfind hentry hnode hfuel hact => ?_) hrun
    obtain ⟨k, rfl⟩ := Nat.exists_eq_succ_of_ne_zero hfuel
    obtain ⟨v'', reply, hrefuse, hneg⟩ := rmDirNode_kept hfat hcnt h hfind hentry hnode k
    rw [hrefuse] at hact
    cases hact
    exact ⟨reply, rfl, iff_of_false (Int.ne_of_lt hneg) not_removed⟩

/-- A directory that is removed is removed with the status of a failure. -/
theorem rmdir_answerable (hfat : sb.fatCnt ≠ 0) (hc : Stands c flat) (hcnt : Counted v) {n : Nat}
    {name : List UInt8} (h : Answers env sb flat c v (.rmdir n name)) :
    Answerable env sb flat v (.rmdir n name) := by
  obtain ⟨⟨fuel, flat', ⟨v', replies⟩, hrun⟩, hstatus⟩ := (answers_iff hc).mp h
  have hends : (byName env sb fuel v n name (rmDirNode sb fuel)).run (flatOp sb.partitionStart)
      flat = .ok (flat', v', replies) := hrun
  intro v₁ dir hfind
  obtain ⟨hname, hscan⟩ := byName_ends hfat hends v₁ dir hfind
  refine ⟨hname, hscan, fun loc htarget => ?_⟩
  by_contra hnot
  obtain ⟨hnotKept, hmark⟩ := not_or.mp hnot
  obtain ⟨⟨v₁', dir', hfind', hentry⟩, hdir⟩ := htarget
  rw [hfind] at hfind'
  cases hfind'
  rcases fatRmDir_flat hfat hends with
    ⟨-, hnone⟩ | ⟨v₁', dir', loc', hfind', hentry', -, k, v₂, i, hnode, hremove⟩
  · rcases lookupNode_cases env sb v₁ (direntAt sb flat loc) loc.1 loc.2 with
      ⟨hmark', -⟩ | ⟨-, ⟨i, -, -, hsome⟩ | ⟨-, hnew⟩⟩
    · exact hmark hmark'
    · rw [hnone v₁ dir loc hfind hentry] at hsome
      exact nomatch congrArg Prod.snd hsome
    · rw [hnone v₁ dir loc hfind hentry] at hnew
      exact nomatch congrArg Prod.snd hnew
  · rw [hfind] at hfind'
    cases hfind'
    obtain rfl := hentry.unique hentry'
    rcases rmDirNode_flat hfat (hcnt.findNode hfind) hdir hnode dir k with ⟨hkept, -⟩ | ⟨-, hremoved⟩
    · exact hnotKept ((findNode_kept hfind).mp hkept)
    · obtain ⟨hdeleted, hreplies⟩ := hremoved flat' v' replies hremove
      obtain ⟨reply, hreply, hiff⟩ := hstatus fuel flat' v' replies hrun
      rw [hreplies] at hreply
      cases hreply
      exact absurd (hiff.mpr ⟨loc, ⟨v₁, dir, hfind, hentry⟩, hdeleted⟩) (show ¬ -eInval = 0 by decide)

theorem mkdir_answered (hc : Stands c flat) {n : Nat} {name : List UInt8}
    (h : Answerable env sb flat v (.mkdir n name)) : Answers env sb flat c v (.mkdir n name) := by
  obtain ⟨hname, hnot⟩ := h
  have hrun : ∀ fuel, (handle env sb fuel v (.mkdir n name)).run (flatOp sb.partitionStart) flat =
      .ok (flat, (findNode v n).1, [⟨-eInval, .none, .bytes []⟩]) := by
    intro fuel
    refine (Prog.run_bind_ok _ (readName_flat hname) _).trans ?_
    rcases findNode v n with ⟨v₁, parent⟩
    dsimp only
    rw [hnot]
    rfl
  refine (answers_iff hc).mpr ⟨⟨0, flat, _, hrun 0⟩, fun fuel flat' v' replies hok => ?_⟩
  rw [hrun fuel] at hok
  cases hok
  refine ⟨_, rfl, iff_of_false (show ¬ -eInval = 0 by decide) fun hcreated => ?_⟩
  obtain ⟨⟨loc, hloc, -⟩, hnone⟩ := hcreated
  exact hnone loc hloc

/-- The other end of `fatUnlink`: it removes a file once it has freed its chain. -/
theorem unlink_answerable (hfat : sb.fatCnt ≠ 0) (hc : Stands c flat) (hcnt : Counted v) {n : Nat}
    {name : List UInt8} (h : Answers env sb flat c v (.unlink n name)) :
    Answerable env sb flat v (.unlink n name) := by
  obtain ⟨⟨fuel, flat', ⟨v', replies⟩, hrun⟩, -⟩ := (answers_iff hc).mp h
  have hends : (byName env sb fuel v n name (unlinkNode sb fuel)).run (flatOp sb.partitionStart)
      flat = .ok (flat', v', replies) := hrun
  intro v₁ dir hfind
  obtain ⟨hname, hscan⟩ := byName_ends hfat hends v₁ dir hfind
  refine ⟨hname, hscan, fun loc hloc hunlink => ?_⟩
  obtain ⟨v₁', dir', hfind', hentry⟩ := hloc
  rw [hfind] at hfind'
  cases hfind'
  rcases byName_done hfat hends with
    ⟨-, hnone⟩ | ⟨v₁', dir', loc', v₂, i, hfind', hentry', -, -, hnode, hact⟩
  · -- an entry that gets no node has no chain
    by_cases halloc : Allocated (getFirstCluster sb (direntAt sb flat loc))
    · obtain ⟨v₂, i, hsome⟩ := lookupNode_allocated env v₁ halloc loc.1 loc.2
      rw [hnone v₁ dir loc hfind hentry] at hsome
      cases hsome
    · exact .of_not halloc
  · rw [hfind] at hfind'
    cases hfind'
    obtain rfl := hentry.unique hentry'
    rcases unlinkNode_flat (hcnt.findNode hfind) hnode flat dir fuel with
      ⟨hnot, -⟩ | ⟨-, -, hremoved⟩
    · exact absurd ((findNode_unlinkable hfind).mpr hunlink) hnot
    · obtain ⟨-, -, flat₁, hfree⟩ := hremoved flat' v' replies hact
      exact (freeEnds_iff hfat _).mpr ⟨fuel, flat₁, hfree⟩

/-- The other end of `fatMkDir`: of the names a directory can have none is answered, where the
parent is in order. -/
theorem mkdir_answerable (hl : DataLayout sb) (hc : Stands c flat) {n : Nat} {name : List UInt8}
    (horder : ∀ v₁ dir, findNode v n = (v₁, some dir) → DirInOrder sb flat v₁ dir)
    (h : Answers env sb flat c v (.mkdir n name)) :
    Answerable env sb flat v (.mkdir n name) := by
  obtain ⟨hends, hstatus⟩ := (answers_iff hc).mp h
  have hname : NameFits name := by
    obtain ⟨fuel, flat', r, hrun⟩ := hends
    obtain ⟨flat₀, _, hread, -⟩ := Prog.ok_of_run_bind _ hrun
    unfold readName at hread
    split at hread
    next hfits => exact hfits
    · cases hread
  refine ⟨hname, ?_⟩
  cases hdirent : fatASCIIZToDirEntry env.charSigned env.stackDirent name with
  | none => rfl
  | some dirent =>
    rcases hfind : findNode v n with ⟨v₁, _ | dir⟩
    · -- there is no parent to put the entry into
      obtain ⟨fuel, flat', r, hrun⟩ := hends
      change (fatMkDir env sb fuel v n name).run (flatOp sb.partitionStart) flat = _ at hrun
      unfold fatMkDir at hrun
      rw [Prog.run_bind_ok _ (readName_flat hname), hfind, hdirent] at hrun
      cases hrun
    · have hmkdir : ∃ fuel result, (fatMkDir env sb fuel v n name).run (flatOp sb.partitionStart)
          flat = .ok result := by
        obtain ⟨fuel, flat', r, hrun⟩ := hends
        exact ⟨fuel, _, hrun⟩
      obtain ⟨fuel, flat', v', hrun, hnew⟩ :=
        mkDir_nothing env hl (horder v₁ dir hfind) hname hfind hdirent hmkdir
      obtain ⟨reply, hreply, hiff⟩ := hstatus fuel flat' v' _ hrun
      cases hreply
      -- the status says that the directory has been made
      obtain ⟨⟨loc, ⟨v₂, dir₂, hfind₂, hentry⟩, -⟩, hfresh⟩ := hiff.mp rfl
      rw [hfind] at hfind₂
      cases hfind₂
      obtain ⟨loc', hold⟩ := hnew.entryIn hentry
      exact absurd ⟨v₁, dir, hfind, hold⟩ (hfresh loc')

/-! ## Every message -/

/-- The messages that are answered only where `Answerable` says so: all of them but requests
for a directory in a parent that is not in order. -/
def Exact (sb : FatSb) (flat : Nat → UInt8) (v : Vol) : Message → Prop
  | .mkdir n _ => DataLayout sb ∧
      ∀ v₁ dir, findNode v n = (v₁, some dir) → DirInOrder sb flat v₁ dir
  | _ => True

theorem answers_of_answerable (hfat : sb.fatCnt ≠ 0) (hc : Stands c flat) (hcnt : Counted v)
    (h : Answerable env sb flat v req) : Answers env sb flat c v req := by
  cases req with
  | lookup n name =>
    exact answers_of_ends hc nofun (fun _ _ => trivial) ((lookup_answerable hfat n name).mpr h)
  | close n => exact answers_of_ends hc nofun (fun _ _ => trivial) ⟨0, flat, _, rfl⟩
  | create n offset sz => exact h.elim
  | read n offset sz =>
    exact answers_of_ends hc nofun (fun _ _ => trivial) (read_ends hfat n offset sz)
  | write n offset data =>
    exact answers_of_ends hc nofun (fun _ _ => trivial) ((write_answerable hfat n offset data).mpr h)
  | readdir n offset nbytes =>
    exact answers_of_ends hc nofun (fun _ _ => trivial) ((readdir_answerable hfat n offset nbytes).mpr h)
  | unlink n name => exact unlink_answered hfat hc hcnt h
  | rmdir n name => exact rmdir_answered hfat hc hcnt h
  | mkdir n name => exact mkdir_answered hc h
  | mknod => exact answers_of_ends hc nofun (fun _ _ => trivial) ⟨0, flat, _, rfl⟩
  | rename => exact answers_of_ends hc nofun (fun _ _ => trivial) ⟨0, flat, _, rfl⟩
  | unknown => exact h.elim

theorem answerable_of_answers (hfat : sb.fatCnt ≠ 0) (hc : Stands c flat) (hcnt : Counted v)
    (hexact : Exact sb flat v req) (h : Answers env sb flat c v req) :
    Answerable env sb flat v req := by
  cases req with
  | lookup n name => exact (lookup_answerable hfat n name).mp ((answers_iff hc).mp h).1
  | close n => trivial
  | create n offset sz => exact create_not_answered hfat hc n offset sz h
  | read n offset sz => trivial
  | write n offset data => exact (write_answerable hfat n offset data).mp ((answers_iff hc).mp h).1
  | readdir n offset nbytes => exact (readdir_answerable hfat n offset nbytes).mp ((answers_iff hc).mp h).1
  | unlink n name => exact unlink_answerable hfat hc hcnt h
  | rmdir n name => exact rmdir_answerable hfat hc hcnt h
  | mkdir n name => exact mkdir_answerable hexact.1 hc hexact.2 h
  | mknod => trivial
  | rename => trivial
  | unknown =>
    -- the server leaves its loop
    obtain ⟨fuel, flat', r, hrun⟩ := ((answers_iff hc).mp h).1
    cases hrun

/-- On a volume in use, a message gets one reply, with the status it should have, where
`Answerable` says so; of the messages of `Exact`, no others do. -/
theorem handle_answers (hfat : sb.fatCnt ≠ 0) (hc : Stands c flat) (hcnt : Counted v)
    (req : Message) :
    (Answerable env sb flat v req → Answers env sb flat c v req) ∧
    (Exact sb flat v req → Answers env sb flat c v req → Answerable env sb flat v req) :=
  ⟨answers_of_answerable hfat hc hcnt, answerable_of_answers hfat hc hcnt⟩

end Flat

/-- `handle_answers` where a file is removed, and where a byte of one is written. -/
theorem handle_answers_sample : ∃ c c', createCache (sampleDev 'A'.toUInt8 2) 1 512 true 5 = some c ∧
    Answers sampleEnv sampleFat16 (sampleFlat 'A'.toUInt8 2) c initVol
      (.unlink 0 (sampleName 'a'.toUInt8)) ∧
    createCache oneFileDev 1 512 true 5 = some c' ∧
    Answers sampleEnv sampleFat16 oneFileFlat c' oneFileVol (.write 2 1 [7]) := by
  obtain ⟨c, hcreate⟩ : ∃ c, createCache (sampleDev 'A'.toUInt8 2) 1 512 true 5 = some c :=
    ⟨_, rfl⟩
  obtain ⟨c', hcreate'⟩ : ∃ c, createCache oneFileDev 1 512 true 5 = some c := ⟨_, rfl⟩
  have hcnt : Counted oneFileVol := by
    constructor <;> decide
  have hunlink := @handle_answers sampleEnv _ _ _ _ (show sampleFat16.fatCnt ≠ 0 by decide)
    (createCache_stands hcreate).1 initVol_counted (.unlink 0 (sampleName 'a'.toUInt8))
  have hwrite := @handle_answers sampleEnv _ _ _ _ (show sampleFat16.fatCnt ≠ 0 by decide)
    (createCache_stands hcreate').1 hcnt (.write 2 1 [7])
  refine ⟨c, c', hcreate, hunlink.1 fun v₁ dir hfind => ?_, hcreate',
    hwrite.1 fun v₁ node hfind => ?_⟩
  · -- the name is in the first slot of the root
    cases hfind
    refine ⟨show _ ≤ _ by decide, ⟨0, ?_⟩, fun loc _ _ => .inl (by decide)⟩
    intro hpass
    obtain ⟨loc, hslot, hother⟩ := hpass
    cases hslot
    exact absurd hother (by decide)
  · cases hfind
    exact ⟨by decide, .of_found (by decide) (by decide) (by decide)⟩

/-- `CMD_CREATE` is answered twice. -/
theorem create_two_replies : ∃ c, createCache (sampleDev 'A'.toUInt8 2) 1 512 true 5 = some c ∧
    ¬ Answers sampleEnv sampleFat16 (sampleFlat 'A'.toUInt8 2) c initVol (.create 0 0 0) := by
  obtain ⟨c, hcreate⟩ : ∃ c, createCache (sampleDev 'A'.toUInt8 2) 1 512 true 5 = some c :=
    ⟨_, rfl⟩
  exact ⟨c, hcreate, create_not_answered (by decide) (createCache_stands hcreate).1 0 0 0⟩

end Cheviot.Fatfs
