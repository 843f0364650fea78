import Cheviot.Fatfs.Main

/-!
# The references of nodes over a run of requests

`FindNode` takes a reference for every request that names a node of the list. No handler
drops the one of the node it was given, and `fatClose` drops none at all. So the counts
agree with the lookups that have not been closed only as long as no request names a node.

The books of the lookups are kept beside the run. A message that names no node leaves counts and
books alone (`handle_idle`); one that does takes a reference that is never dropped, so that the
counts are wrong from then on.

* `RefsOk` — every count on the list is the number of open lookups, with one for the root.
* `Balanced`, `NamesNone` — what holds in the states of a run, and of its requests.
* `serve_balanced_iff` — in a run from the mount on, the one is the other.
-/

namespace Cheviot.Fatfs

open Cheviot.Bytes

/-! ## The books of the clients -/

/-- The inode number that `FindNode` is called with. -/
def Message.inodeNr : Message → Option Nat
  | .lookup n _ | .unlink n _ | .rmdir n _ | .mkdir n _ => some n
  | .create n _ _ | .read n _ _ | .write n _ _ | .readdir n _ _ => some n
  | .close _ | .mknod | .rename | .unknown => none

/-- The lookups of each inode number that have not been closed, after a message. -/
def openLookups (opens : Nat → Nat) (msg : Message) (replies : List Reply) : Nat → Nat :=
  match msg, replies with
  | .lookup .., [⟨_, .lookup n .., _⟩] => Function.update opens n (opens n + 1)
  | .close n, _ => Function.update opens n (opens n - 1)
  | _, _ => opens

/-- The count of every node is the number of its open lookups, with one more for the root. -/
def RefsOk (v : Vol) (opens : Nat → Nat) : Prop :=
  ∀ i ∈ v.nodeList, (v.nodes i).referenceCnt =
    opens (v.nodes i).inodeNr + if i = rootNode then 1 else 0

section Runs

variable (env : Env) (sb : FatSb) (fuel : Nat)

/-- No unlink of a file without open lookups is refused because the file is busy. -/
def NotBusy (c : Cache) (v : Vol) (opens : Nat → Nat) (msg : Message) (replies : List Reply) :
    Prop :=
  ∀ n name v₁ parent c₂ v₂ i, msg = .unlink n name → findNode v n = (v₁, some parent) →
    (lookup env sb fuel v₁ parent name).run (cacheOp sb.partitionStart) c = .ok (c₂, v₂, some i) →
    opens (v₂.nodes i).inodeNr = 0 → ∀ r ∈ replies, r.status ≠ -eBusy

/-- The counts are right after every message of a run, and no unlink is refused wrongly. -/
def Balanced : Cache → Vol → (Nat → Nat) → List Message → Prop
  | _, _, _, [] => True
  | c, v, opens, msg :: msgs => ∀ c' v' replies,
    (handle env sb fuel v msg).run (cacheOp sb.partitionStart) c = .ok (c', v', replies) →
      RefsOk v' (openLookups opens msg replies) ∧ NotBusy env sb fuel c v opens msg replies ∧
        Balanced c' v' (openLookups opens msg replies) msgs

/-- The message names no node of the list, and closes nothing that is open. -/
def Message.NamesNone (v : Vol) (opens : Nat → Nat) (msg : Message) : Prop :=
  (∀ n, msg.inodeNr = some n → ∀ i ∈ v.nodeList, (v.nodes i).inodeNr ≠ n) ∧
    ∀ n, msg = .close n → opens n = 0

/-- No message of a run names a node of the list, or closes anything. -/
def NamesNone : Cache → Vol → (Nat → Nat) → List Message → Prop
  | _, _, _, [] => True
  | c, v, opens, msg :: msgs => ∀ c' v' replies,
    (handle env sb fuel v msg).run (cacheOp sb.partitionStart) c = .ok (c', v', replies) →
      msg.NamesNone v opens ∧ NamesNone c' v' (openLookups opens msg replies) msgs

end Runs

/-! ## Messages that name no node -/

section Idle

variable {env : Env} {sb : FatSb} {fuel : Nat} {v : Vol} {opens : Nat → Nat} {msg : Message}

theorem findNode_none {n : Nat} (h : ∀ i ∈ v.nodeList, (v.nodes i).inodeNr ≠ n) :
    findNode v n = (v, none) := by
  rcases findNode_cases v n with ⟨hnone, -⟩ | ⟨i, hi, hn, -⟩
  · exact hnone
  · exact absurd hn (h i hi)

theorem fatRead_none {n : Nat} (h : findNode v n = (v, none)) (offset sz : Nat) :
    fatRead sb v n offset sz = replymsg v (-eInval) := by
  unfold fatRead
  rw [h]

/-- Nothing changes, in the handler and in the books. -/
theorem handle_idle (h : msg.NamesNone v opens) :
    (handle env sb fuel v msg).Meets (fun _ => True) fun r =>
      r.1 = v ∧ openLookups opens msg r.2 = opens := by
  have hfind : ∀ n, msg.inodeNr = some n → findNode v n = (v, none) :=
    fun n hn => findNode_none (h.1 n hn)
  cases msg with
  | lookup n name =>
    refine .bind (.any _) fun _ _ => ?_
    rw [hfind n rfl]
    exact .pure ⟨rfl, rfl⟩
  -- the books do not go below zero
  | close n =>
    refine .pure ⟨rfl, ?_⟩
    show Function.update opens n (opens n - 1) = opens
    rw [h.2 n rfl, Nat.zero_sub, ← h.2 n rfl, Function.update_eq_self]
  | create n offset sz =>
    show Prog.Meets _ _ (fatCreate v >>= _)
    refine .bind (.pure (Q := fun r : Vol × List Reply => r.1 = v) rfl) fun r hr => ?_
    obtain ⟨v', replies⟩ := r
    obtain rfl : v' = v := hr
    dsimp only
    rw [fatRead_none (hfind n rfl)]
    exact .pure ⟨rfl, rfl⟩
  | read n offset sz =>
    show Prog.Meets _ _ (fatRead sb v n offset sz)
    rw [fatRead_none (hfind n rfl)]
    exact .pure ⟨rfl, rfl⟩
  | write n offset data =>
    show Prog.Meets _ _ (fatWrite sb fuel v n offset data)
    unfold fatWrite
    rw [hfind n rfl]
    exact .pure ⟨rfl, rfl⟩
  | readdir n offset nbytes =>
    show Prog.Meets _ _ (fatReadDir env sb fuel v n offset nbytes)
    unfold fatReadDir
    rw [hfind n rfl]
    -- `fatReadDir` does not look whether there is a node
    exact .fail _
  | unlink n name =>
    show Prog.Meets _ _ (fatUnlink env sb fuel v n name)
    unfold fatUnlink
    rw [hfind n rfl]
    exact .pure ⟨rfl, rfl⟩
  | rmdir n name =>
    show Prog.Meets _ _ (fatRmDir env sb fuel v n name)
    unfold fatRmDir
    rw [hfind n rfl]
    exact .pure ⟨rfl, rfl⟩
  | mkdir n name =>
    refine .bind (.any _) fun _ _ => ?_
    rw [hfind n rfl]
    cases fatASCIIZToDirEntry env.charSigned env.stackDirent name with
    | none => exact .pure ⟨rfl, rfl⟩
    | some dirent => exact .fail _
  | mknod => exact .pure ⟨rfl, rfl⟩
  | rename => exact .pure ⟨rfl, rfl⟩
  | unknown => exact .fail _

theorem notBusy_idle {c : Cache} {replies : List Reply} (h : msg.NamesNone v opens) :
    NotBusy env sb fuel c v opens msg replies := by
  intro n name v₁ parent c₂ v₂ i hmsg hfind
  subst hmsg
  rw [findNode_none (h.1 n rfl)] at hfind
  cases hfind

end Idle

/-! ## Invariants of the nodes -/

/-- A property `I` of the nodes that handlers keep once they have found the node they were
given. Where a reference of a node is still to be dropped, it is `D`. -/
structure NodeInv (env : Env) (sb : FatSb) (I : Vol → Prop) (D : Vol → Nat → Prop) : Prop where
  keeps : ∀ {v v'}, I v → Keeps v v' → I v'
  keeps_taken : ∀ {v v' i}, D v i → Keeps v v' → D v' i
  look : ∀ {v v' i dirent sector offset}, I v →
    lookupNode env sb v dirent sector offset = (v', some i) → D v' i
  drop : ∀ {v i}, D v i → I (freeNode v i)

section Invariants

variable {env : Env} {sb : FatSb} {I : Vol → Prop} {D : Vol → Nat → Prop} {fuel : Nat}
  {v v₁ : Vol} {n parent : Nat}

theorem NodeInv.lookup (hI : NodeInv env sb I D) (h : I v) (dirnode : Nat) (name : List UInt8) :
    (lookup env sb fuel v dirnode name).Meets (fun _ => True) fun r =>
      r = (v, none) ∨ ∃ v' i, r = (v', some i) ∧ D v' i := by
  refine ((lookup_meets v dirnode name).weaken fun _ _ => trivial).mono fun r hr => ?_
  rcases hr with hnone | ⟨dirent, sector, offset, rfl⟩
  · exact .inl hnone
  · rcases lookupNode_cases env sb v dirent sector offset with
      ⟨-, hnone⟩ | ⟨-, ⟨i, -, -, hsome⟩ | ⟨-, hnew⟩⟩
    · exact .inl hnone
    · exact .inr ⟨_, _, hsome, hI.look h hsome⟩
    · exact .inr ⟨_, _, hnew, hI.look h hnew⟩

theorem NodeInv.removeNode (hI : NodeInv env sb I D) {i : Nat} (h : D v i) (parent : Nat) :
    (removeNode sb fuel v parent i).Meets (fun _ => True) I :=
  .bind (.any _) fun _ _ => .bind (.any _) fun _ _ => .bind (.any _) fun _ _ =>
    .pure (hI.drop (hI.keeps_taken h (Keeps.setNode v i _ _ _)))

/-- The handlers of files keep it, and the one of directories that are read. -/
theorem fatRead_inv (hfind : findNode v n = (v₁, some parent)) (h : I v₁) (offset sz : Nat) :
    (fatRead sb v n offset sz).Meets (fun _ => True) fun r => I r.1 := by
  unfold fatRead
  rw [hfind]
  exact .bind (.any _) fun _ _ => .pure h

theorem fatReadDir_inv (hfind : findNode v n = (v₁, some parent)) (h : I v₁)
    (offset nbytes : Nat) :
    (fatReadDir env sb fuel v n offset nbytes).Meets (fun _ => True) fun r => I r.1 := by
  unfold fatReadDir
  rw [hfind]
  exact .bind (.any _) fun _ _ => .pure h

theorem NodeInv.fatWrite (hI : NodeInv env sb I D) (hfind : findNode v n = (v₁, some parent))
    (h : I v₁) (offset : Nat) (data : List UInt8) :
    (fatWrite sb fuel v n offset data).Meets (fun _ => True) fun r => I r.1 := by
  unfold Fatfs.fatWrite
  rw [hfind]
  dsimp only
  split
  · exact .bind (writeFile_keeps ..) fun r hkeeps => .pure (hI.keeps h hkeeps)
  · exact .fail _

theorem NodeInv.fatLookup (hI : NodeInv env sb I D) (htaken : ∀ {v i}, D v i → I v)
    (hfind : findNode v n = (v₁, some parent)) (h : I v₁) (name : List UInt8) :
    (fatLookup env sb fuel v n name).Meets (fun _ => True) fun r => I r.1 := by
  unfold Fatfs.fatLookup
  rw [hfind]
  refine .bind (.any _) fun _ _ => .bind (hI.lookup h parent name) fun r hr => ?_
  rcases hr with rfl | ⟨v', i, rfl, htook⟩
  · exact .pure h
  · exact .pure (htaken htook)

/-- The handlers that remove drop what `lookup` has taken. -/
theorem NodeInv.fatUnlink (hI : NodeInv env sb I D) (hfind : findNode v n = (v₁, some parent))
    (h : I v₁) (name : List UInt8) :
    (fatUnlink env sb fuel v n name).Meets (fun _ => True) fun r => I r.1 := by
  unfold Fatfs.fatUnlink
  rw [hfind]
  refine .bind (.any _) fun _ _ => .bind (hI.lookup h parent name) fun r hr => ?_
  rcases hr with rfl | ⟨v', i, rfl, htook⟩
  · exact .pure h
  · dsimp only
    unfold unlinkNode
    split
    · split
      · exact .bind (hI.removeNode htook parent) fun _ hr => .pure hr
      · exact .pure (hI.drop htook)
    · exact .pure (hI.drop htook)

theorem NodeInv.fatRmDir (hI : NodeInv env sb I D) (hfind : findNode v n = (v₁, some parent))
    (h : I v₁) (name : List UInt8) :
    (fatRmDir env sb fuel v n name).Meets (fun _ => True) fun r => I r.1 := by
  unfold Fatfs.fatRmDir
  rw [hfind]
  refine .bind (.any _) fun _ _ => .bind (hI.lookup h parent name) fun r hr => ?_
  rcases hr with rfl | ⟨v', i, rfl, htook⟩
  · exact .pure h
  · dsimp only
    unfold rmDirNode
    split
    · split
      · split
        · refine .bind (.any _) fun rc _ => ?_
          split
          · exact .bind (hI.removeNode htook parent) fun _ hr => .pure hr
          · exact .pure (hI.drop htook)
        · exact .pure (hI.drop htook)
      · exact .pure (hI.drop htook)
    · exact .pure (hI.drop htook)

theorem NodeInv.fatMkDir (hI : NodeInv env sb I D) (hfind : findNode v n = (v₁, some parent))
    (h : I v₁) (name : List UInt8) :
    (fatMkDir env sb fuel v n name).Meets (fun _ => True) fun r => I r.1 := by
  unfold Fatfs.fatMkDir
  rw [hfind]
  refine .bind (.any _) fun _ _ => ?_
  dsimp only
  cases fatASCIIZToDirEntry env.charSigned env.stackDirent name with
  | none => exact .pure h
  | some dirent =>
    refine .bind (fatCreateDirEntry_keeps ..) fun r hkeeps => ?_
    obtain ⟨v₂, r⟩ := r
    have h₂ := hI.keeps h hkeeps
    cases r with
    | none => exact .pure h₂
    | some loc =>
      obtain ⟨sector, offset⟩ := loc
      dsimp only
      -- the entry has no first cluster yet
      rw [allocNode_dirDirent]
      exact .bind (.any _) fun _ _ => .pure h₂

/-- Where finding a node keeps it, every message does. -/
theorem NodeInv.handle (hI : NodeInv env sb I D) (htaken : ∀ {v i}, D v i → I v)
    (hkeep : ∀ {n v₁ i}, findNode v n = (v₁, some i) → I v₁) (h : I v) (msg : Message) :
    (handle env sb fuel v msg).Meets (fun _ => True) fun r => I r.1 := by
  -- a message without a node changes nothing
  by_cases hidle : msg.NamesNone v fun _ => 0
  · refine (handle_idle hidle).mono fun r hr => ?_
    rw [hr.1]
    exact h
  · obtain ⟨n, v₁, i, hmsg, hfind⟩ : ∃ n v₁ i, msg.inodeNr = some n ∧
        findNode v n = (v₁, some i) := by
      by_contra hnone
      refine hidle ⟨fun n hn j hj hnr => hnone ?_, fun _ _ => rfl⟩
      rcases findNode_cases v n with ⟨-, hall⟩ | ⟨i, -, -, hsome⟩
      · exact absurd hnr (hall j hj)
      · exact ⟨n, _, i, hn, hsome⟩
    have h₁ := hkeep hfind
    cases msg with
    | lookup n name =>
      cases hmsg
      exact hI.fatLookup htaken hfind h₁ name
    | create n offset sz =>
      cases hmsg
      refine .bind (.pure (Q := fun r : Vol × List Reply => r.1 = v) rfl) fun r hr => ?_
      obtain ⟨v', replies⟩ := r
      obtain rfl : v' = v := hr
      exact .bind (fatRead_inv hfind h₁ offset sz) fun r hr => .pure hr
    | read n offset sz =>
      cases hmsg
      exact fatRead_inv hfind h₁ offset sz
    | write n offset data =>
      cases hmsg
      exact hI.fatWrite hfind h₁ offset data
    | readdir n offset nbytes =>
      cases hmsg
      exact fatReadDir_inv hfind h₁ offset nbytes
    | unlink n name =>
      cases hmsg
      exact hI.fatUnlink hfind h₁ name
    | rmdir n name =>
      cases hmsg
      exact hI.fatRmDir hfind h₁ name
    | mkdir n name =>
      cases hmsg
      exact hI.fatMkDir hfind h₁ name
    | close n => cases hmsg
    | mknod => cases hmsg
    | rename => cases hmsg
    | unknown => cases hmsg

/-- A run of messages keeps what each of them keeps. -/
theorem NodeInv.serve (hI : NodeInv env sb I D) (htaken : ∀ {v i}, D v i → I v)
    (hkeep : ∀ {v n v₁ i}, I v → findNode v n = (v₁, some i) → I v₁) (msgs : List Message) :
    ∀ {v}, I v → (serve env sb fuel v msgs).Meets (fun _ => True) fun r => I r.1 := by
  induction msgs with
  | nil => exact fun h => .pure h
  | cons msg msgs ih =>
    intro v h
    exact .bind (hI.handle htaken (hkeep h) h msg) fun r hr => .bind (ih hr) fun r hr => .pure hr

end Invariants

/-! ## Counts of listed nodes -/

section Counted

variable {v v' : Vol} {i : Nat}

/-- Every node is on the list once, the root is there, and all have references. -/
structure Counted (v : Vol) : Prop where
  nodup : v.nodeList.Nodup
  root : rootNode ∈ v.nodeList
  lt : ∀ i ∈ v.nodeList, i < v.nextNode
  pos : ∀ i ∈ v.nodeList, 1 ≤ (v.nodes i).referenceCnt

theorem Counted.keeps (h : Counted v) (hkeeps : Keeps v v') : Counted v' := by
  constructor
  · rw [hkeeps.nodeList]
    exact h.nodup
  · rw [hkeeps.nodeList]
    exact h.root
  · rw [hkeeps.nodeList, hkeeps.nextNode]
    exact h.lt
  · rw [hkeeps.nodeList]
    intro i hi
    rw [hkeeps.referenceCnt]
    exact h.pos i hi

theorem Counted.setNode (h : Counted v) {node : FatNode}
    (hnode : i ∈ v.nodeList → 1 ≤ node.referenceCnt) : Counted (v.setNode i node) where
  nodup := h.nodup
  root := h.root
  lt := h.lt
  pos j hj := by
    rw [Vol.setNode_apply]
    split
    next hji => exact hnode (hji ▸ hj)
    · exact h.pos j hj

/-- One reference can be dropped, of the root too. -/
def Droppable (v : Vol) (i : Nat) : Prop :=
  Counted v ∧ (i = rootNode → 2 ≤ (v.nodes i).referenceCnt)

theorem Droppable.freeNode (h : Droppable v i) : Counted (freeNode v i) := by
  obtain ⟨hcnt, hroot⟩ := h
  unfold Fatfs.freeNode
  dsimp only
  rw [Vol.setNode_apply, if_pos rfl]
  by_cases hi : i = rootNode
  · rw [if_pos hi]
    have htwo := hroot hi
    exact hcnt.setNode fun _ => by
      show 1 ≤ (v.nodes i).referenceCnt - 1
      omega
  · rw [if_neg hi]
    split
    next hzero =>
      refine ⟨hcnt.nodup.erase i, (List.mem_erase_of_ne (Ne.symm hi)).mpr hcnt.root,
        fun j hj => hcnt.lt j (List.mem_of_mem_erase hj), fun j hj => ?_⟩
      have hj := (List.Nodup.mem_erase_iff hcnt.nodup).mp hj
      show 1 ≤ ((v.setNode i _).nodes j).referenceCnt
      rw [Vol.setNode_apply, if_neg hj.1]
      exact hcnt.pos j hj.2
    next hne =>
      refine hcnt.setNode fun hmem => ?_
      have hpos := hcnt.pos i hmem
      dsimp only at hne ⊢
      omega

/-- The counts are kept by every handler. -/
theorem counted_inv (env : Env) (sb : FatSb) : NodeInv env sb Counted Droppable where
  keeps := Counted.keeps
  keeps_taken h hkeeps := ⟨h.1.keeps hkeeps, fun hi => by
    rw [hkeeps.referenceCnt]
    exact h.2 hi⟩
  look := by
    intro v v' i dirent sector offset h hlook
    rcases lookupNode_cases env sb v dirent sector offset with
      ⟨-, hnone⟩ | ⟨-, ⟨j, -, hj, hsome⟩ | ⟨-, hnew⟩⟩
    · rw [hnone] at hlook
      cases hlook
    · -- a node on the list has one reference more
      rw [hsome] at hlook
      cases hlook
      have hpos := h.pos i hj
      refine ⟨h.setNode fun _ => ?_, fun _ => ?_⟩
      · dsimp only
        omega
      · rw [Vol.setNode_apply, if_pos rfl]
        dsimp only
        omega
    · -- a new node has one, and is no node that has been on the list
      rw [hnew] at hlook
      cases hlook
      refine ⟨⟨?_, List.mem_append_left _ h.root, fun j hj => ?_, fun j hj => ?_⟩, fun hi => ?_⟩
      · refine List.nodup_append.mpr ⟨h.nodup, List.pairwise_singleton _ _, fun a ha b hb => ?_⟩
        rw [List.mem_singleton.mp hb]
        exact Nat.ne_of_lt (h.lt a ha)
      · rcases List.mem_append.mp hj with hj | hj
        · exact Nat.lt_succ_of_lt (h.lt j hj)
        · rw [List.mem_singleton.mp hj]
          exact Nat.lt_succ_self _
      · rw [Vol.addNode_apply]
        split
        · exact Int.le_refl 1
        next hne =>
          rcases List.mem_append.mp hj with hj | hj
          · exact h.pos j hj
          · exact absurd (List.mem_singleton.mp hj) hne
      · exact absurd (h.lt rootNode h.root) (by omega)
  drop h := h.freeNode

theorem Counted.findNode (h : Counted v) {n : Nat} (hfind : findNode v n = (v', some i)) :
    Counted v' := by
  rcases findNode_cases v n with ⟨hnone, -⟩ | ⟨j, hj, -, hsome⟩
  · rw [hnone] at hfind
    cases hfind
  · rw [hsome] at hfind
    cases hfind
    have hpos := h.pos i hj
    refine h.setNode fun _ => ?_
    dsimp only
    omega

theorem handle_counted {env : Env} {sb : FatSb} {fuel : Nat} (h : Counted v) (msg : Message) :
    (handle env sb fuel v msg).Meets (fun _ => True) fun r => Counted r.1 :=
  (counted_inv env sb).handle (fun h => h.1) (fun hfind => h.findNode hfind) h msg

/-- In every state that messages lead to. -/
theorem serve_counted {env : Env} {sb : FatSb} {fuel : Nat} (msgs : List Message) :
    ∀ {v : Vol}, Counted v →
      (serve env sb fuel v msgs).Meets (fun _ => True) fun r => Counted r.1 := by
  induction msgs with
  | nil => exact fun h => .pure h
  | cons msg msgs ih =>
    intro v h
    exact .bind (handle_counted h msg) fun r hr => .bind (ih hr) fun _ hrest => .pure hrest

theorem initVol_counted : Counted initVol := by
  refine ⟨List.pairwise_singleton _ _, List.mem_singleton_self _, fun i hi => ?_, fun i hi => ?_⟩
  · rw [List.mem_singleton.mp hi]
    exact Nat.one_pos
  · exact Int.le_refl 1

end Counted

/-! ## Messages that name the root -/

section Root

variable {env : Env} {sb : FatSb} {fuel : Nat} {v v' : Vol} {k : Int} {i : Nat}

/-- The root node is on the list, with `k` references. -/
structure RootAt (k : Int) (v : Vol) : Prop where
  mem : rootNode ∈ v.nodeList
  referenceCnt : (v.nodes rootNode).referenceCnt = k
  nextNode : rootNode < v.nextNode

theorem RootAt.keeps (h : RootAt k v) (hkeeps : Keeps v v') : RootAt k v' where
  mem := by
    rw [hkeeps.nodeList]
    exact h.mem
  referenceCnt := (hkeeps.referenceCnt rootNode).trans h.referenceCnt
  nextNode := by
    rw [hkeeps.nextNode]
    exact h.nextNode

/-- Another node does not matter. -/
theorem RootAt.setNode_ne (h : RootAt k v) (hi : i ≠ rootNode) (node : FatNode) :
    RootAt k (v.setNode i node) where
  mem := h.mem
  referenceCnt := by
    rw [Vol.setNode_apply, if_neg hi.symm]
    exact h.referenceCnt
  nextNode := h.nextNode

theorem RootAt.setNode_root {node : FatNode} (h : RootAt k v) {k' : Int}
    (hnode : node.referenceCnt = k') : RootAt k' (v.setNode rootNode node) where
  mem := h.mem
  referenceCnt := by rw [Vol.setNode_apply, if_pos rfl, hnode]
  nextNode := h.nextNode

theorem RootAt.addNode (h : RootAt k v) (node : FatNode) : RootAt k (v.addNode node) where
  mem := List.mem_append_left _ h.mem
  referenceCnt := by
    rw [Vol.addNode_apply, if_neg (Nat.ne_of_lt h.nextNode)]
    exact h.referenceCnt
  nextNode := Nat.lt_succ_of_lt h.nextNode

/-- A reference of a node has been taken that is yet to be dropped. -/
def Took (k : Int) (v : Vol) (i : Nat) : Prop :=
  (i = rootNode ∧ RootAt (k + 1) v) ∨ (i ≠ rootNode ∧ RootAt k v)

theorem Took.freeNode (h : Took k v i) : RootAt k (freeNode v i) := by
  unfold Fatfs.freeNode
  dsimp only
  rcases h with ⟨rfl, hroot⟩ | ⟨hi, hroot⟩
  · rw [if_pos rfl]
    exact hroot.setNode_root (by rw [hroot.referenceCnt, Int.add_sub_cancel])
  · have hset := hroot.setNode_ne hi { v.nodes i with
      referenceCnt := (v.nodes i).referenceCnt - 1 }
    rw [if_neg hi]
    split
    · exact ⟨(List.mem_erase_of_ne hi.symm).mpr hset.mem, hset.referenceCnt, hset.nextNode⟩
    · exact hset

/-- The references of the root, but for those a handler drops. -/
theorem rootAt_inv (env : Env) (sb : FatSb) : NodeInv env sb (RootAt k) (Took k) where
  keeps := RootAt.keeps
  keeps_taken h hkeeps := h.imp (And.imp_right fun h => h.keeps hkeeps)
    (And.imp_right fun h => h.keeps hkeeps)
  look := by
    intro v v' i dirent sector offset h hlook
    rcases lookupNode_cases env sb v dirent sector offset with
      ⟨-, hnone⟩ | ⟨-, ⟨j, -, -, hsome⟩ | ⟨-, hnew⟩⟩
    · rw [hnone] at hlook
      cases hlook
    · rw [hsome] at hlook
      cases hlook
      by_cases hi : i = rootNode
      · subst hi
        exact .inl ⟨rfl, h.setNode_root (by rw [h.referenceCnt])⟩
      · exact .inr ⟨hi, h.setNode_ne hi _⟩
    · rw [hnew] at hlook
      cases hlook
      exact .inr ⟨Nat.ne_of_gt h.nextNode, h.addNode _⟩
  drop h := h.freeNode

variable {v₁ : Vol} {n parent : Nat}

theorem RootAt.not_refsOk (h : RootAt 2 v) : ¬ RefsOk v fun _ => 0 := by
  intro hok
  have hcnt := hok rootNode h.mem
  rw [h.referenceCnt, if_pos rfl] at hcnt
  exact absurd hcnt (show (2 : Int) ≠ 0 + 1 by decide)

/-- A lookup in the root takes a reference more than the client has got. -/
theorem fatLookup_not_refsOk (hfind : findNode v n = (v₁, some parent)) (h : RootAt 2 v₁)
    (hlist : v₁.nodeList = [rootNode]) (hroot : (v₁.nodes rootNode).inodeNr = 0)
    (name : List UInt8) :
    (fatLookup env sb fuel v n name).Meets (fun _ => True) fun r =>
      ¬ RefsOk r.1 (openLookups (fun _ => 0) (.lookup n name) r.2) := by
  unfold fatLookup
  rw [hfind]
  refine .bind (.any _) fun _ _ =>
    .bind ((lookup_meets v₁ parent name).weaken fun _ _ => trivial) fun r hr => ?_
  have hfail : Prog.Meets (ε := Fault) (fun _ : DiskOp => True) (fun r =>
      ¬ RefsOk r.1 (openLookups (fun _ => 0) (.lookup n name) r.2)) (replymsg v₁ (-eNoEnt)) :=
    .pure h.not_refsOk
  rcases hr with rfl | ⟨dirent, sector, offset, rfl⟩
  · exact hfail
  · rcases lookupNode_cases env sb v₁ dirent sector offset with
      ⟨-, hnone⟩ | ⟨-, ⟨i, -, hi, hsome⟩ | ⟨hall, hnew⟩⟩
    · rw [hnone]
      exact hfail
    · -- the root itself, with two references for one lookup
      rw [hlist] at hi
      obtain rfl := List.mem_singleton.mp hi
      rw [hsome]
      refine .pure fun hok => ?_
      have hcnt := hok rootNode (show rootNode ∈ v₁.nodeList from h.mem)
      dsimp only [openLookups] at hcnt
      rw [Function.update_self, Vol.setNode_apply, if_pos rfl, if_pos rfl] at hcnt
      dsimp only at hcnt
      rw [h.referenceCnt] at hcnt
      exact absurd hcnt (by decide)
    · -- a new node, which does not have the inode number of the root
      rw [hnew]
      refine .pure fun hok => ?_
      have hne : rawFirstCluster dirent ≠ 0 := by
        intro hraw
        refine hall rootNode h.mem ?_
        rw [hroot, getFirstCluster_zero hraw]
      have hcnt := hok rootNode (List.mem_append_left _ h.mem)
      dsimp only [openLookups] at hcnt
      rw [Vol.addNode_apply, if_neg (Nat.ne_of_lt h.nextNode), hroot, Vol.addNode_apply,
        if_pos rfl, Function.update_of_ne hne.symm, h.referenceCnt, if_pos rfl] at hcnt
      exact absurd hcnt (by decide)

end Root

/-! ## Runs -/

section Runs

variable {env : Env} {sb : FatSb} {fuel : Nat}

theorem initVol_refsOk : RefsOk initVol fun _ => 0 := by
  intro i hi
  obtain rfl := List.mem_singleton.mp hi
  rfl

/-- A message that names the root, in the state after the mount. -/
theorem handle_not_refsOk (env : Env) (sb : FatSb) (fuel : Nat) {msg : Message} (hmsg : msg.inodeNr = some 0) :
    (handle env sb fuel initVol msg).Meets (fun _ => True) fun r =>
      ¬ RefsOk r.1 (openLookups (fun _ => 0) msg r.2) := by
  have hfind : findNode initVol 0 = (_, some rootNode) := rfl
  have h : RootAt 2 (findNode initVol 0).1 := ⟨List.mem_singleton_self _, rfl, by decide⟩
  cases msg with
  | lookup n name =>
    cases hmsg
    exact fatLookup_not_refsOk hfind h rfl rfl name
  | close n => cases hmsg
  | create n offset sz =>
    cases hmsg
    refine .bind (.pure (Q := fun r : Vol × List Reply => r.1 = initVol) rfl) fun r hr => ?_
    obtain ⟨v', replies⟩ := r
    obtain rfl : v' = initVol := hr
    exact .bind (fatRead_inv hfind h offset sz) fun r hr => .pure hr.not_refsOk
  | read n offset sz =>
    cases hmsg
    exact (fatRead_inv hfind h offset sz).mono fun r hr => hr.not_refsOk
  | write n offset data =>
    cases hmsg
    exact ((rootAt_inv env sb).fatWrite hfind h offset data).mono fun r hr => hr.not_refsOk
  | readdir n offset nbytes =>
    cases hmsg
    exact (fatReadDir_inv hfind h offset nbytes).mono fun r hr => hr.not_refsOk
  | unlink n name =>
    cases hmsg
    exact ((rootAt_inv env sb).fatUnlink hfind h name).mono fun r hr => hr.not_refsOk
  | rmdir n name =>
    cases hmsg
    exact ((rootAt_inv env sb).fatRmDir hfind h name).mono fun r hr => hr.not_refsOk
  | mkdir n name =>
    cases hmsg
    exact ((rootAt_inv env sb).fatMkDir hfind h name).mono fun r hr => hr.not_refsOk
  | mknod => cases hmsg
  | rename => cases hmsg
  | unknown => cases hmsg

/-- With nothing open, a message that names a node names the root. -/
theorem inodeNr_of_not_namesNone {msg : Message} (h : ¬ msg.NamesNone initVol fun _ => 0) :
    msg.inodeNr = some 0 := by
  by_contra hne
  refine h ⟨fun n hn i hi hnr => hne ?_, fun _ _ => rfl⟩
  obtain rfl := List.mem_singleton.mp hi
  rw [hn, ← hnr]
  rfl

/-- From the mount on, whatever is on the device: the references are those of the lookups
that have not been closed, and no unlink of a closed file is refused as busy, exactly in
the runs in which no message names a node of the list or closes what is open. -/
theorem serve_balanced_iff (env : Env) (sb : FatSb) (fuel : Nat) (msgs : List Message) :
    ∀ c : Cache, Balanced env sb fuel c initVol (fun _ => 0) msgs ↔
      NamesNone env sb fuel c initVol (fun _ => 0) msgs := by
  induction msgs with
  | nil => exact fun _ => Iff.rfl
  | cons msg msgs ih =>
    intro c
    by_cases hidle : msg.NamesNone initVol fun _ => 0
    · constructor
      · intro h c' v' replies hrun
        obtain ⟨-, -, hrest⟩ := h c' v' replies hrun
        obtain ⟨hv, hopens⟩ := (handle_idle hidle).result hrun
        dsimp only at hv hopens
        subst hv
        rw [hopens] at hrest ⊢
        exact ⟨hidle, (ih c').mp hrest⟩
      · intro h c' v' replies hrun
        obtain ⟨-, hrest⟩ := h c' v' replies hrun
        obtain ⟨hv, hopens⟩ := (handle_idle hidle).result hrun
        dsimp only at hv hopens
        subst hv
        rw [hopens] at hrest ⊢
        exact ⟨initVol_refsOk, notBusy_idle hidle, (ih c').mpr hrest⟩
    · have hbad := handle_not_refsOk env sb fuel (inodeNr_of_not_namesNone hidle)
      constructor
      · intro h c' v' replies hrun
        exact absurd (h c' v' replies hrun).1 (hbad.result hrun)
      · intro h c' v' replies hrun
        exact absurd (h c' v' replies hrun).1 hidle

/-- A read of no bytes of the root leaves it with two references. -/
theorem read_not_balanced : ∃ c, createCache (fun _ _ => 0) 1 512 true 5 = some c ∧
    ¬ Balanced sampleEnv sampleFat16 5 c initVol (fun _ => 0) [.read 0 0 0] := by
  refine ⟨_, rfl, fun h => ?_⟩
  obtain ⟨hok, -⟩ := h _ _ _ rfl
  exact absurd (hok rootNode (List.mem_singleton_self _)) (by decide)

end Runs

end Cheviot.Fatfs
