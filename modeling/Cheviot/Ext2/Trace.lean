import Cheviot.Ext2.ListsSame
import Mathlib.Logic.Relation

/-!
# A request as a sequence of calls

Whatever a request does to the inodes and directories it does by a few kinds of
calls, on inodes it holds a reference to. `Act` lists them, with the slots held;
a request that is handled well is a sequence of them from no reference to no
reference (`handle_follows`). So an invariant has to be checked for each kind of
call only.

The sequence is followed for any calls that do what `get_inode` and `put_inode`
do where these find a slot and a reference (`InodeCalls.Agrees`), at least in the
states that such a sequence leads to (`InodeCalls.AgreesFrom`): the handlers need
no more of them.

A name is entered in, deleted from and looked up in directories only that the
message names. The new directory of `ext2_mkdir` would be the exception, but has
no block for `.` and `..`.

Mirroring notes:
- `read` and `write` take no reference and are not split up.
-/

namespace Cheviot.Ext2

open Cheviot.Run

/-! ## The calls -/

/-- The calls do what `get_inode` does when it finds a slot, and what `put_inode`
does when there is a reference to give back. -/
structure InodeCalls.Agrees (c : InodeCalls) (v : Volume) (env : Env) : Prop where
  get : ∀ s n s' i, getInode v s n = .ok (s', some i) → c.get s n = .ok (s', some i)
  put : ∀ s i, 1 ≤ (s.slot i).count → c.put s i = putInode v env s i

/-- How a handler may change an inode it holds: where the data is, and of what kind
the inode is, stays. -/
structure Touched (x y : Inode) : Prop where
  ino : y.ino = x.ino
  count : y.count = x.count
  dirty : y.dirty = true
  size : y.odi.size = x.odi.size
  blocks : y.odi.blocks = x.odi.blocks
  block : y.odi.block = x.odi.block
  kind : y.odi.mode &&& 0xF000 = x.odi.mode &&& 0xF000

/-- What a message may name: inodes, and names to be entered, for an inode that is made
(`some n`) or for one that there is. -/
structure Args where
  ino : Nat → Prop
  name : Option Nat → List UInt8 → Prop

/-- One call of a handler, with the slots it holds before and after. -/
inductive Act (v : Volume) (env : Env) (arg : Args) : Fs → List Nat → Fs → List Nat → Prop where
  | get {s s' : Fs} {held : List Nat} {n i : Nat} (hn : arg.ino n) (h : GotInode v s n i s') :
      Act v env arg s held s' (i :: held)
  | entry {s s' : Fs} {held : List Nat} {d n i : Nat} {name : List UInt8} (hd : d ∈ held)
      (hdir : arg.ino (s.slot d).ino)
      (hfound : lookupDir v s.blk (s.slot d).odi name = .ok (.ok n)) (h : GotInode v s n i s') :
      Act v env arg s held s' (i :: held)
  -- `alloc_inode` takes inode number 0 for a failure, and leaves its bit set
  | mark {s s' : Fs} {held : List Nat} {group n : Nat} {isDir : Bool}
      (h : allocInodeBit v s group isDir = .ok (s', n)) : Act v env arg s held s' held
  | fresh {s s₁ s' : Fs} {held : List Nat} {group n i : Nat} {name : List UInt8}
      {mode uid gid : UInt16} (hname : arg.name (some n) name)
      (hnew : allocInodeBit v s group (sIsDir mode) = .ok (s₁, n)) (hn : n ≠ noEntry)
      (h : GotInode v s₁ n i s') :
      Act v env arg s₁ held (s'.setSlot i (initInode (s'.slot i) mode uid gid)) (i :: held)
  | put {s s' : Fs} {held rest : List Nat} {i : Nat} (hp : held.Perm (i :: rest))
      (h : PutInode v env s i s') : Act v env arg s held s' rest
  | touch {s : Fs} {held : List Nat} {i : Nat} {x : Inode} (hi : i ∈ held)
      (h : Touched (s.slot i) x) : Act v env arg s held (s.setSlot i x) held
  | store {s s' : Fs} {held : List Nat} {i : Nat} (hi : i ∈ held)
      (h : writeInode v env s i = .ok s') : Act v env arg s held s' held
  | enter {s s' : Fs} {held : List Nat} {i j : Nat} {made : Option Nat} {name : List UInt8}
      {mode : UInt16} (hi : i ∈ held) (hj : j ∈ held) (hdir : arg.ino (s.slot i).ino)
      (hname : arg.name made name)
      (h : direntEnter v env s i name (s.slot j).ino mode = .ok (s', .ok ())) :
      Act v env arg s held s' held
  | delete {s s' : Fs} {held : List Nat} {i : Nat} {name : List UInt8} (hi : i ∈ held)
      (hdir : arg.ino (s.slot i).ino)
      (h : direntDelete v env s i name = .ok (s', .ok ())) : Act v env arg s held s' held

/-- A sequence of calls. -/
abbrev Acts (v : Volume) (env : Env) (arg : Args) : Fs × List Nat → Fs × List Nat → Prop :=
  Relation.ReflTransGen fun p q => Act v env arg p.1 p.2 q.1 q.2

/-- The calls agree with `get_inode` and `put_inode` in every state that a sequence
from `s₀`, where nothing is held, leads to. -/
structure InodeCalls.AgreesFrom (c : InodeCalls) (v : Volume) (env : Env) (arg : Args) (s₀ : Fs) :
    Prop where
  get : ∀ s held n s' i, Acts v env arg (s₀, []) (s, held) →
    getInode v s n = .ok (s', some i) → c.get s n = .ok (s', some i)
  put : ∀ s held i, Acts v env arg (s₀, []) (s, held) → i ∈ held →
    c.put s i = putInode v env s i

section Trace

variable {v : Volume} {env : Env} {arg : Args} {c : InodeCalls} {s₀ s s' : Fs}
  {held held' ds : List Nat}

theorem allocInodeBit_lt {s' : Fs} {group n : Nat} {isDir : Bool}
    (h : allocInodeBit v s group isDir = .ok (s', n)) : n < 2 ^ 32 := by
  have hends : Ends (allocInodeBit v s group isDir) fun r => r.2 < 2 ^ 32 := by
    unfold allocInodeBit
    split
    · exact .error _
    split
    · exact .error _
    refine Ends.bind (P := fun _ => True) (fun _ _ => trivial) fun r _ => ?_
    match r with
    | none => exact .error _
    | some (bitmap, bit) =>
      simp only
      split
      · exact .error _
      split
      · exact .error _
      exact .ok (Nat.mod_lt _ (by decide))
  exact hends _ h

/-- A call leaves the lists in order, with the references it has taken. -/
theorem Act.lists (h : Act v env arg s held s' held')
    (harg : ∀ n, arg.ino n → n ≠ noEntry) (hl : ListsOk s held) : ListsOk s' held' := by
  cases h with
  | get hn h => exact h.lists hl (harg _ hn)
  | entry hd hdir hfound h => exact h.lists hl (lookupDir_ends _ hfound _ rfl).1
  | mark h => exact hl.same (allocInodeBit_keepsLists s _ _ _ h)
  | fresh _ _ hn h => exact (h.lists hl hn).same (.setSlot _ rfl rfl)
  | put hp h =>
    have hi := hp.mem_iff.mpr List.mem_cons_self
    refine (h.lists hl hi).perm ?_
    exact (List.perm_cons_erase hi).symm.trans hp |>.cons_inv
  | touch hi h => exact hl.same (.setSlot _ h.ino h.count)
  | store hi h => exact hl.same (writeInode_keepsLists s _ _ h)
  | enter hi hj hdir hname h => exact hl.same (direntEnter_keepsLists s _ _ _ _ _ h)
  | delete hi hdir h => exact hl.same (direntDelete_keepsLists s _ _ _ h)

/-- A slot that is held all along keeps its inode number. -/
theorem Act.slot_ino (h : Act v env arg s held s' held') (hl : ListsOk s held) {j : Nat}
    (hj : j ∈ held) (hj' : j ∈ held') : (s'.slot j).ino = (s.slot j).ino := by
  cases h with
  | get hn h => exact h.ino_held hl hj
  | entry hd hdir hfound h => exact h.ino_held hl hj
  | mark h => exact (allocInodeBit_keepsLists s _ _ _ h).ino j
  | @fresh _ _ t _ _ _ i _ mode uid gid _ _ hn h =>
    have hsame : ListsSame t (t.setSlot i (initInode (t.slot i) mode uid gid)) := .setSlot t rfl rfl
    exact (hsame.ino j).trans (h.ino_held hl hj)
  | put hp h => exact h.ino_held (hl.perm hp) hj'
  | touch hi h => exact (ListsSame.setSlot s h.ino h.count).ino j
  | store hi h => exact (writeInode_keepsLists s _ _ h).ino j
  | enter hi hj hdir hname h => exact (direntEnter_keepsLists s _ _ _ _ _ h).ino j
  | delete hi hdir h => exact (direntDelete_keepsLists s _ _ _ h).ino j

/-- What every call keeps, a sequence of calls keeps. -/
theorem Acts.keep {P : Fs → List Nat → Prop} {p q : Fs × List Nat} (h : Acts v env arg p q)
    (hstep : ∀ s held s' held', P s held → Act v env arg s held s' held' → P s' held')
    (hp : P p.1 p.2) : P q.1 q.2 := by
  induction h with
  | refl => exact hp
  | tail _ hact ih => exact hstep _ _ _ _ ih hact

theorem InodeCalls.Agrees.from (hc : c.Agrees v env) (harg : ∀ n, arg.ino n → n ≠ noEntry)
    (hl : ListsOk s₀ []) : c.AgreesFrom v env arg s₀ := by
  refine ⟨fun s _ n s' i _ => hc.get s n s' i, fun s held i hacts hi => hc.put s i ?_⟩
  have hlists : ListsOk s held :=
    hacts.keep (P := ListsOk) (fun _ _ _ _ hl hact => hact.lists harg hl) hl
  exact hlists.count_pos hi

/-! ## Following a handler -/

/-- Where a handler stands that began in `s₀` without a reference. It knows of the
slots of `ds` that they are held and hold inodes of the message. -/
structure Here (v : Volume) (env : Env) (arg : Args) (s₀ s : Fs) (held ds : List Nat) : Prop where
  lists : ListsOk s held
  acts : Acts v env arg (s₀, []) (s, held)
  dirs : ∀ d ∈ ds, d ∈ held ∧ arg.ino (s.slot d).ino

/-- What a message may name: an inode number. -/
def ArgsOk (arg : Args) : Prop := ∀ n, arg.ino n → n ≠ noEntry ∧ n < 2 ^ 32

theorem Here.start (hl : ListsOk s []) : Here v env arg s s [] [] :=
  ⟨hl, .refl, fun _ h => (nomatch h)⟩

/-- The next call keeps what is known of the slots that stay held. -/
theorem Here.act (hh : Here v env arg s₀ s held ds) (harg : ArgsOk arg)
    (h : Act v env arg s held s' held') {ds' : List Nat} (hds : ∀ d ∈ ds', d ∈ ds ∧ d ∈ held') :
    Here v env arg s₀ s' held' ds' := by
  refine ⟨h.lists (fun n hn => (harg n hn).1) hh.lists, hh.acts.tail h, fun d hd => ?_⟩
  obtain ⟨hold, hin⟩ := hds d hd
  obtain ⟨hheld, hdir⟩ := hh.dirs d hold
  refine ⟨hin, ?_⟩
  rw [h.slot_ino hh.lists hheld hin]
  exact hdir

/-- Nothing need be known of the slots. -/
theorem Here.forget (hh : Here v env arg s₀ s held ds) : Here v env arg s₀ s held [] :=
  ⟨hh.lists, hh.acts, fun _ h => (nomatch h)⟩

/-- `get_inode` finds a slot, and the calls that agree with it the same one. -/
theorem Here.got (hh : Here v env arg s₀ s held ds) (hc : c.AgreesFrom v env arg s₀)
    (hlen : held.length < nrInodes) {n : Nat} (hn : n ≠ noEntry) (hlt : n < 2 ^ 32) :
    Follows ((inodeCalls v env).get s n) (c.get s n) fun r =>
      ∃ i, r.2 = some i ∧ GotInode v s n i r.1 := by
  rintro ⟨s', r⟩ h
  obtain ⟨i, rfl, hgot⟩ := getInode_ok hh.lists hlen hn hlt h
  exact ⟨hc.get s held n s' i hh.acts h, i, rfl, hgot⟩

/-- The next step takes a reference to an inode of the message. -/
theorem Here.get (hh : Here v env arg s₀ s held ds) (hc : c.AgreesFrom v env arg s₀)
    (harg : ArgsOk arg) (hlen : held.length < nrInodes) {n : Nat} (hn : arg.ino n) :
    Follows ((inodeCalls v env).get s n) (c.get s n) fun r =>
      ∃ i, r.2 = some i ∧ Here v env arg s₀ r.1 (i :: held) (i :: ds) := by
  refine (hh.got hc hlen (harg n hn).1 (harg n hn).2).mono fun r => ?_
  intro ⟨i, hi, hgot⟩
  have hnext := hh.act harg (.get hn hgot) fun d hd =>
    ⟨hd, List.mem_cons_of_mem i (hh.dirs d hd).1⟩
  refine ⟨i, hi, hnext.lists, hnext.acts, List.forall_mem_cons.mpr ⟨⟨List.mem_cons_self, ?_⟩,
    hnext.dirs⟩⟩
  rw [(hgot.cached hh.lists).2]
  exact hn

/-- The next step takes a reference to an inode looked up. -/
theorem Here.entry (hh : Here v env arg s₀ s held ds) (hc : c.AgreesFrom v env arg s₀)
    (harg : ArgsOk arg) (hlen : held.length < nrInodes) {d n : Nat} {name : List UInt8}
    (hd : d ∈ ds) (hfound : lookupDir v s.blk (s.slot d).odi name = .ok (.ok n)) :
    Follows ((inodeCalls v env).get s n) (c.get s n) fun r =>
      ∃ i, r.2 = some i ∧ (r.1.slot i).ino = n ∧ Here v env arg s₀ r.1 (i :: held) ds := by
  obtain ⟨hne, hlt⟩ := lookupDir_ends _ hfound n rfl
  obtain ⟨hheld, hdir⟩ := hh.dirs d hd
  refine (hh.got hc hlen hne hlt).mono fun r => ?_
  intro ⟨i, hi, hgot⟩
  refine ⟨i, hi, (hgot.cached hh.lists).2, hh.act harg (.entry hheld hdir hfound hgot) ?_⟩
  exact fun d hd => ⟨hd, List.mem_cons_of_mem i (hh.dirs d hd).1⟩

/-- The next step gives a reference back. -/
theorem Here.put (hh : Here v env arg s₀ s held ds) (hc : c.AgreesFrom v env arg s₀)
    (harg : ArgsOk arg) {i : Nat} {rest : List Nat} (hp : held.Perm (i :: rest)) :
    Follows ((inodeCalls v env).put s i) (c.put s i) fun s' => Here v env arg s₀ s' rest [] := by
  have hi : i ∈ held := hp.mem_iff.mpr List.mem_cons_self
  intro s' h
  refine ⟨?_, hh.act harg (.put hp (putInode_ok hh.lists hi h)) fun _ h => (nomatch h)⟩
  rw [hc.put s held i hh.acts hi]
  exact h

/-- The next step leaves the references as they are. -/
theorem Here.stay (hh : Here v env arg s₀ s held ds) (harg : ArgsOk arg)
    (h : Act v env arg s held s' held) : Here v env arg s₀ s' held ds :=
  hh.act harg h fun d hd => ⟨hd, (hh.dirs d hd).1⟩

/-- The next step changes an inode that is held. -/
theorem Here.touch (hh : Here v env arg s₀ s held ds) (harg : ArgsOk arg) {i : Nat} {x : Inode}
    (hi : i ∈ held) (h : Touched (s.slot i) x) : Here v env arg s₀ (s.setSlot i x) held ds :=
  hh.stay harg (.touch hi h)

theorem Here.store (hh : Here v env arg s₀ s held ds) (harg : ArgsOk arg) {i : Nat}
    (hi : i ∈ held) :
    Ends (writeInode v env s i) fun s' => Here v env arg s₀ s' held ds :=
  fun _ h => hh.stay harg (.store hi h)

/-- The next step enters a held inode in a directory, or leaves everything as it is. -/
theorem Here.enter (hh : Here v env arg s₀ s held ds) (harg : ArgsOk arg) {i j : Nat}
    {made : Option Nat} {name : List UInt8} {mode : UInt16} (hi : i ∈ ds) (hname : arg.name made name)
    (hj : j ∈ held)
    {n : Nat} (hn : (s.slot j).ino = n) :
    Ends (direntEnter v env s i name n mode) fun r => Here v env arg s₀ r.1 held ds := by
  obtain ⟨hheld, hdir⟩ := hh.dirs i hi
  rintro ⟨s', sc⟩ h
  subst hn
  match sc with
  | .ok _ => exact hh.stay harg (.enter hheld hj hdir hname h)
  | .error e =>
    rw [direntEnter_error h]
    exact hh

theorem Here.delete (hh : Here v env arg s₀ s held ds) (harg : ArgsOk arg) {i : Nat}
    {name : List UInt8} (hi : i ∈ ds) :
    Ends (direntDelete v env s i name) fun r => Here v env arg s₀ r.1 held ds := by
  obtain ⟨hheld, hdir⟩ := hh.dirs i hi
  rintro ⟨s', sc⟩ h
  match sc with
  | .ok _ => exact hh.stay harg (.delete hheld hdir h)
  | .error e =>
    rw [direntDelete_error h]
    exact hh

/-! ## The handlers -/

/-- The inode that `alloc_inode` takes, next to the one in cache slot `parent`. -/
def takenInode (v : Volume) (env : Env) (s : Fs) (parent : Nat) (mode : UInt16) :
    Except Fault (Option Nat) := do
  match ← findFreeInodeGroup v env s (s.slot parent).ino mode with
  | none => return none
  | some group =>
    let (_, ino) ← allocInodeBit v s group (sIsDir mode)
    return if ino = noEntry then none else some ino

/-- The inode that `new_inode` makes for a name in directory `dirIno`, if it comes to that. -/
def madeInode (v : Volume) (env : Env) (s : Fs) (dirIno : Nat) (name : List UInt8)
    (mode : UInt16) : Except Fault (Option Nat) := do
  let (s, dirInode) ← getInode v s dirIno
  match dirInode with
  | none => return none
  | some dir => match ← refuseName v s dir name mode with
    | some _ => return none
    | none => takenInode v env s dir mode

theorem takenInode_eq {parent group n : Nat} {mode : UInt16}
    (hfind : findFreeInodeGroup v env s (s.slot parent).ino mode = .ok (some group))
    (hnew : allocInodeBit v s group (sIsDir mode) = .ok (s', n)) (hn : n ≠ noEntry) :
    takenInode v env s parent mode = .ok (some n) := by
  unfold takenInode
  rw [bind_of_ok hfind]
  dsimp only
  rw [bind_of_ok hnew]
  exact congrArg Except.ok (if_neg hn)

theorem madeInode_eq {dirIno dir : Nat} {name : List UInt8} {mode : UInt16}
    (hget : (inodeCalls v env).get s dirIno = .ok (s', some dir))
    (hname : refuseName v s' dir name mode = .ok none) :
    madeInode v env s dirIno name mode = takenInode v env s' dir mode := by
  have hget : getInode v s dirIno = .ok (s', some dir) := hget
  unfold madeInode
  rw [bind_of_ok hget]
  dsimp only
  rw [bind_of_ok hname]

/-- `alloc_inode`: the slot of the new inode is held; it is dirty, and the inode empty. -/
theorem allocInode_follows (hh : Here v env arg s₀ s held ds) (hc : c.AgreesFrom v env arg s₀)
    (harg : ArgsOk arg) (hlen : held.length < nrInodes) {name : List UInt8} {parent : Nat}
    {mode : UInt16} (hname : ∀ n, takenInode v env s parent mode = .ok (some n) → arg.name (some n) name)
    (uid gid : UInt16) :
    Follows (allocInode (inodeCalls v env) v env s parent mode uid gid)
      (allocInode c v env s parent mode uid gid) fun r =>
        match r.2 with
        | .ok i => (∃ made, arg.name made name) ∧ (r.1.slot i).dirty = true ∧
          (r.1.slot i).odi.size = 0 ∧ Here v env arg s₀ r.1 (i :: held) ds
        | .error _ => Here v env arg s₀ r.1 held ds := by
  unfold allocInode
  refine Follows.bind (Ends.self _).follows fun r hfind => ?_
  match r with
  | none => exact .pure hh
  | some group =>
    refine Follows.bind (Ends.self _).follows fun r hnew => ?_
    obtain ⟨t, n⟩ := r
    have ht : Here v env arg s₀ t held ds := hh.stay harg (.mark hnew)
    simp only
    split
    next => exact .pure ht
    next hn =>
      refine Follows.bind (ht.got hc hlen hn (allocInodeBit_lt hnew)) fun r hr => ?_
      obtain ⟨u, inode⟩ := r
      obtain ⟨i, rfl, hgot⟩ := hr
      have hmade : arg.name (some n) name := hname n (takenInode_eq hfind hnew hn)
      refine .pure ⟨⟨_, hmade⟩, ?_, ?_, ht.act harg (.fresh hmade hnew hn hgot) fun d hd => ?_⟩
      · simp [Fs.setSlot, initInode]
      · simp [Fs.setSlot, initInode]
      · exact ⟨hd, List.mem_cons_of_mem i (ht.dirs d hd).1⟩

/-- Changing the links of an inode that is marked dirty all along. -/
theorem Here.setLinks (hh : Here v env arg s₀ s held ds) (harg : ArgsOk arg) {i : Nat}
    (hi : i ∈ held) (hdirty : (s.slot i).dirty = true) (n : UInt16) :
    Here v env arg s₀ (s.setLinks i n) held ds :=
  hh.touch harg hi ⟨rfl, rfl, hdirty, rfl, rfl, rfl, rfl⟩

/-- Changing the links of an inode and marking it dirty. -/
theorem Here.relink (hh : Here v env arg s₀ s held ds) (harg : ArgsOk arg) {i : Nat}
    (hi : i ∈ held) (n : UInt16) :
    Here v env arg s₀ (inodeMarkdirty (s.setLinks i n) i) held ds := by
  have heq : inodeMarkdirty (s.setLinks i n) i =
      s.setSlot i { s.slot i with odi := { (s.slot i).odi with linksCount := n }, dirty := true } := by
    simp [inodeMarkdirty, Fs.setLinks, Fs.modOdi, Fs.setSlot]
  rw [heq]
  exact hh.touch harg hi ⟨rfl, rfl, rfl, rfl, rfl, rfl, rfl⟩

theorem setLinks_size (s : Fs) (i : Nat) (n : UInt16) (j : Nat) :
    ((s.setLinks i n).slot j).odi.size = (s.slot j).odi.size := by
  by_cases hj : j = i
  · subst hj
    simp [Fs.setLinks, Fs.modOdi, Fs.setSlot]
  · simp [Fs.setLinks, Fs.modOdi, Fs.setSlot, hj]

/-- `write_inode` changes no size. -/
theorem writeInode_size (s : Fs) (i j : Nat) :
    Ends (writeInode v env s i) fun s' => (s'.slot j).odi.size = (s.slot j).odi.size := by
  rw [writeInode_def]
  split
  · exact .error _
  · refine .ok ?_
    rw [wroteInode_slot]
    split
    next heq =>
      have hsize := congrArg OndiskInode.size (untimed_timed v env (s.slot i))
      rw [heq]
      exact hsize
    next => rfl

/-- Nor does `dirent_enter`. -/
theorem direntEnter_size (s : Fs) (i : Nat) (name : List UInt8) (ino : Nat) (mode : UInt16)
    (j : Nat) : Ends (direntEnter v env s i name ino mode) fun r =>
      (r.1.slot j).odi.size = (s.slot j).odi.size := by
  unfold direntEnter
  split
  · exact .ok rfl
  refine Ends.bind (Ends.self _) fun r _ => ?_
  match r with
  | none => exact .pure rfl
  | some (block, b, o) =>
    refine Ends.bind (P := fun t : Fs => (t.slot j).odi.size = (s.slot j).odi.size) ?_
      fun t ht => .pure ht
    refine Ends.bind (Ends.self _) fun b' _ => ?_
    refine (writeInode_size _ i j).mono fun t ht => ht.trans ?_
    by_cases hj : j = i
    · subst hj
      simp [Fs.setSlot, Fs.writeBlk, Fs.setBlk]
    · simp [Fs.setSlot, Fs.writeBlk, Fs.setBlk, hj]

/-- A directory without a block has no room for an entry. -/
theorem direntEnter_empty {i : Nat} (hsize : (s.slot i).odi.size = 0) {name : List UInt8}
    (hname : name.length ≤ nameMax) (ino : Nat) (mode : UInt16) :
    direntEnter v env s i name ino mode = .ok (s, .error .enoent) := by
  have hfind : findSpace v s.blk (s.slot i).odi (dirEntrySize name.length) = .ok none := by
    have hpos : ¬ 0 < (s.slot i).odi.size.toNat := by
      rw [hsize]
      decide
    rw [findSpace, walkBlocks, walkDir, if_neg hpos]
  rw [direntEnter, if_neg (Nat.not_lt.mpr hname), bind_of_ok hfind]
  rfl

/-- `new_inode`: the slot of the new inode is held, and the inode still empty. -/
theorem newInode_follows (hh : Here v env arg s₀ s held ds) (hc : c.AgreesFrom v env arg s₀)
    (harg : ArgsOk arg) (hlen : held.length < nrInodes) {dir : Nat} (hdir : dir ∈ ds)
    {name : List UInt8} {mode : UInt16} (hname : refuseName v s dir name mode = .ok none →
      ∀ n, takenInode v env s dir mode = .ok (some n) → arg.name (some n) name) (uid gid : UInt16) :
    Follows (newInode (inodeCalls v env) v env s dir name mode uid gid)
      (newInode c v env s dir name mode uid gid) fun r =>
        match r.2 with
        | .ok i => (r.1.slot i).odi.size = 0 ∧ Here v env arg s₀ r.1 (i :: held) ds
        | .error _ => Here v env arg s₀ r.1 held [] := by
  unfold newInode
  refine Follows.bind (Ends.self _).follows fun r hrefuse => ?_
  match r with
  | some e => exact .pure hh.forget
  | none =>
    refine Follows.bind (allocInode_follows hh hc harg hlen (hname hrefuse) uid gid) fun r hr => ?_
    obtain ⟨t, inode⟩ := r
    match inode with
    | .error e => exact .pure hr.forget
    | .ok i =>
      obtain ⟨⟨made, hentered⟩, hdirty, hsize, ht⟩ := hr
      have hi : i ∈ i :: held := List.mem_cons_self
      -- the name is counted as a link before it is entered
      have ht := ht.setLinks harg hi hdirty ((t.slot i).odi.linksCount + 1)
      have hstore : Ends (writeInode v env (t.setLinks i ((t.slot i).odi.linksCount + 1)) i)
          fun u => (u.slot i).odi.size = 0 ∧ Here v env arg s₀ u (i :: held) ds := by
        intro u hu
        refine ⟨(writeInode_size _ i i u hu).trans ?_, ht.store harg hi u hu⟩
        rw [setLinks_size, hsize]
      refine Follows.bind hstore.follows fun u hu => ?_
      obtain ⟨husize, hu⟩ := hu
      have henter : Ends (direntEnter v env u dir name (u.slot i).ino mode) fun r =>
          (r.1.slot i).odi.size = 0 ∧ Here v env arg s₀ r.1 (i :: held) ds := by
        intro r hr
        refine ⟨(direntEnter_size u dir name _ mode i r hr).trans husize, ?_⟩
        exact hu.enter harg hdir hentered hi rfl r hr
      refine Follows.bind henter.follows fun r hr => ?_
      obtain ⟨w, sc⟩ := r
      match sc with
      | .ok _ => exact .pure hr
      | .error e =>
        -- no room for the name: the link is taken back, and the slot given back
        have hw := hr.2.relink harg hi ((w.slot i).odi.linksCount - 1)
        exact Follows.bind (hw.put hc harg (.refl _)) fun z hz => .pure hz

/-- `ext2_create`. -/
theorem ext2Create_follows (hl : ListsOk s []) (hc : c.AgreesFrom v env arg s) (harg : ArgsOk arg)
    {dirIno : Nat} (hdir : arg.ino dirIno) {name : List UInt8} {mode : UInt16}
    (hname : ∀ n, madeInode v env s dirIno name (0x8000 ||| (mode &&& 0x1FF)) = .ok (some n) →
      arg.name (some n) name)
    (uid gid : UInt16) :
    Follows (ext2Create (inodeCalls v env) v env s dirIno name mode uid gid)
      (ext2Create c v env s dirIno name mode uid gid) fun r => Here v env arg s r.1 [] [] := by
  unfold ext2Create
  refine Follows.bind ((Here.start hl).get hc harg (by decide) hdir).self fun r hr => ?_
  obtain ⟨t, inode⟩ := r
  obtain ⟨hget, dir, rfl, ht⟩ := hr
  refine Follows.bind (newInode_follows ht hc harg (by decide : 1 < nrInodes) List.mem_cons_self
    (fun hrefuse n hn => hname n ((madeInode_eq hget hrefuse).trans hn)) uid gid) fun r hr => ?_
  obtain ⟨u, inode⟩ := r
  match inode with
  | .error e => exact Follows.bind (hr.put hc harg (.refl _)) fun z hz => .pure hz
  | .ok i =>
    obtain ⟨-, hr⟩ := hr
    refine Follows.bind (hr.put hc harg (.swap dir i [])) fun w hw => ?_
    exact Follows.bind (hw.put hc harg (.refl _)) fun z hz => .pure hz

/-- `ext2_mknod`. -/
theorem ext2Mknod_follows (hl : ListsOk s []) (hc : c.AgreesFrom v env arg s) (harg : ArgsOk arg)
    {dirIno : Nat} (hdir : arg.ino dirIno) {name : List UInt8} {mode : UInt16}
    (hname : ∀ n, madeInode v env s dirIno name mode = .ok (some n) →
      arg.name (some n) name)
    (uid gid : UInt16) :
    Follows (ext2Mknod (inodeCalls v env) v env s dirIno name mode uid gid)
      (ext2Mknod c v env s dirIno name mode uid gid) fun r => Here v env arg s r.1 [] [] := by
  unfold ext2Mknod
  refine Follows.bind ((Here.start hl).get hc harg (by decide) hdir).self fun r hr => ?_
  obtain ⟨t, inode⟩ := r
  obtain ⟨hget, dir, rfl, ht⟩ := hr
  refine Follows.bind (newInode_follows ht hc harg (by decide : 1 < nrInodes) List.mem_cons_self
    (fun hrefuse n hn => hname n ((madeInode_eq hget hrefuse).trans hn)) uid gid) fun r hr => ?_
  obtain ⟨u, inode⟩ := r
  match inode with
  | .error e => exact Follows.bind (hr.put hc harg (.refl _)) fun z hz => .pure hz
  | .ok i =>
    obtain ⟨-, hr⟩ := hr
    refine Follows.bind (hr.put hc harg (.refl _)) fun w hw => ?_
    exact Follows.bind (hw.put hc harg (.refl _)) fun z hz => .pure hz

/-- `.` and `..` never get into the new directory: it has no block. -/
theorem enterDots_empty {i : Nat} (hsize : (s.slot i).odi.size = 0) (dir : Nat) :
    enterDots v env s dir i = .ok (s, false) := by
  have hdot : direntEnter v env s i [0x2E] (s.slot i).ino 0x4000 = .ok (s, .error .enoent) :=
    direntEnter_empty hsize (by decide) _ _
  have hdotdot : direntEnter v env s i [0x2E, 0x2E] (s.slot dir).ino 0x4000 =
      .ok (s, .error .enoent) := direntEnter_empty hsize (by decide) _ _
  rw [enterDots, bind_of_ok hdot]
  exact bind_of_ok hdotdot _

/-- Without `.` and `..`, `ext2_mkdir` takes the new directory out of its parent again. -/
theorem linkDots_ends (hh : Here v env arg s₀ s held ds) (harg : ArgsOk arg) {dir i : Nat}
    (hdir : dir ∈ ds) (hi : i ∈ held) (name : List UInt8) :
    Ends (linkDots v env s dir i name false) fun t =>
      Here v env arg s₀ (inodeMarkdirty t i) held ds := by
  rw [linkDots, if_neg (by decide)]
  refine Ends.bind (hh.delete harg hdir) fun r hr => ?_
  obtain ⟨t, sc⟩ := r
  match sc with
  | .error _ => exact .error _
  | .ok _ => exact .pure (hr.relink harg hi _)

/-- `ext2_mkdir`. -/
theorem ext2Mkdir_follows (hl : ListsOk s []) (hc : c.AgreesFrom v env arg s) (harg : ArgsOk arg)
    {dirIno : Nat} (hdir : arg.ino dirIno) {name : List UInt8} {mode : UInt16}
    (hname : ∀ n, madeInode v env s dirIno name mode = .ok (some n) →
      arg.name (some n) name)
    (uid gid : UInt16) :
    Follows (ext2Mkdir (inodeCalls v env) v env s dirIno name mode uid gid)
      (ext2Mkdir c v env s dirIno name mode uid gid) fun r => Here v env arg s r.1 [] [] := by
  unfold ext2Mkdir
  refine Follows.bind ((Here.start hl).get hc harg (by decide) hdir).self fun r hr => ?_
  obtain ⟨t, inode⟩ := r
  obtain ⟨hget, dir, rfl, ht⟩ := hr
  refine Follows.bind (newInode_follows ht hc harg (by decide : 1 < nrInodes) List.mem_cons_self
    (fun hrefuse n hn => hname n ((madeInode_eq hget hrefuse).trans hn)) uid gid) fun r hr => ?_
  obtain ⟨u, inode⟩ := r
  match inode with
  | .error e => exact Follows.bind (hr.put hc harg (.refl _)) fun z hz => .pure hz
  | .ok i =>
    obtain ⟨hsize, hu⟩ := hr
    have hdots : Ends (enterDots v env u dir i) fun r => r = (u, false) := by
      rw [enterDots_empty hsize dir]
      exact .ok rfl
    refine Follows.bind hdots.follows fun r hr => ?_
    subst hr
    refine Follows.bind (linkDots_ends hu harg List.mem_cons_self List.mem_cons_self name).follows
      fun x hx => ?_
    refine Follows.bind (hx.put hc harg (.swap dir i [])) fun y hy => ?_
    exact Follows.bind (hy.put hc harg (.refl _)) fun z hz => .pure hz

/-- `ext2_lookup`. -/
theorem ext2Lookup_follows (hl : ListsOk s []) (hc : c.AgreesFrom v env arg s) (harg : ArgsOk arg)
    {dirIno : Nat} (hdir : arg.ino dirIno) (name : List UInt8) :
    Follows (ext2Lookup (inodeCalls v env) v s dirIno name) (ext2Lookup c v s dirIno name)
      fun r => Here v env arg s r.1 [] [] := by
  unfold ext2Lookup
  refine Follows.bind ((Here.start hl).get hc harg (by decide) hdir) fun r hr => ?_
  obtain ⟨t, inode⟩ := r
  obtain ⟨dir, rfl, ht⟩ := hr
  refine Follows.bind (Ends.self _).follows fun r hfound => ?_
  match r with
  | .error e => exact Follows.bind (ht.put hc harg (.refl _)) fun z hz => .pure hz
  | .ok ino =>
    refine Follows.bind (ht.entry hc harg (by decide : 1 < nrInodes) List.mem_cons_self hfound) fun r hr => ?_
    obtain ⟨u, inode⟩ := r
    obtain ⟨i, rfl, -, hu⟩ := hr
    refine Follows.bind (hu.put hc harg (.refl _)) fun w hw => ?_
    exact Follows.bind (hw.put hc harg (.refl _)) fun z hz => .pure hz

/-- `ext2_readdir`. -/
theorem ext2Readdir_follows (hl : ListsOk s []) (hc : c.AgreesFrom v env arg s) (harg : ArgsOk arg)
    {ino : Nat} (hino : arg.ino ino) (offset sz : Nat) :
    Follows (ext2Readdir (inodeCalls v env) v s ino offset sz) (ext2Readdir c v s ino offset sz)
      fun r => Here v env arg s r.1 [] [] := by
  unfold ext2Readdir
  refine Follows.bind ((Here.start hl).get hc harg (by decide) hino) fun r hr => ?_
  obtain ⟨t, inode⟩ := r
  obtain ⟨dir, rfl, ht⟩ := hr
  refine Follows.bind (Ends.self _).follows fun r _ => ?_
  match r with
  | .error e => exact Follows.bind (ht.put hc harg (.refl _)) fun z hz => .pure hz
  | .ok (cookie, entries) =>
    have hmark : Here v env arg s (markAtime t dir) [dir] [dir] :=
      ht.touch harg List.mem_cons_self ⟨rfl, rfl, rfl, rfl, rfl, rfl, rfl⟩
    exact Follows.bind (hmark.put hc harg (.refl _)) fun z hz => .pure hz

/-- A change of an inode that is held, with `CTIME` set. -/
theorem Here.change (hh : Here v env arg s₀ s held ds) (harg : ArgsOk arg) {i : Nat}
    (hi : i ∈ held) {f : OndiskInode → OndiskInode}
    (hf : ∀ x, (f x).size = x.size ∧ (f x).blocks = x.blocks ∧ (f x).block = x.block ∧
      (f x).mode &&& 0xF000 = x.mode &&& 0xF000) :
    Here v env arg s₀ (changeInode s i f) held ds := by
  obtain ⟨hsize, hblocks, hblock, hkind⟩ := hf (s.slot i).odi
  exact hh.touch harg hi ⟨rfl, rfl, rfl, hsize, hblocks, hblock, hkind⟩

/-- `ext2_rmdir`. -/
theorem ext2Rmdir_follows (hl : ListsOk s []) (hc : c.AgreesFrom v env arg s) (harg : ArgsOk arg)
    {dirIno : Nat} (hdir : arg.ino dirIno) (name : List UInt8) :
    Follows (ext2Rmdir (inodeCalls v env) v env s dirIno name) (ext2Rmdir c v env s dirIno name)
      fun r => Here v env arg s r.1 [] [] := by
  unfold ext2Rmdir
  refine Follows.bind ((Here.start hl).get hc harg (by decide) hdir) fun r hr => ?_
  obtain ⟨t, inode⟩ := r
  obtain ⟨dir, rfl, ht⟩ := hr
  refine Follows.bind (Ends.self _).follows fun r hfound => ?_
  match r with
  | .error e => exact Follows.bind (ht.put hc harg (.refl _)) fun z hz => .pure hz
  | .ok ino =>
    refine Follows.bind (ht.entry hc harg (by decide : 1 < nrInodes) List.mem_cons_self hfound) fun r hr => ?_
    obtain ⟨u, inode⟩ := r
    obtain ⟨i, rfl, -, hu⟩ := hr
    have hmem : dir ∈ [i, dir] := List.mem_cons_of_mem i List.mem_cons_self
    refine Follows.bind (Ends.self _).follows fun empty _ => ?_
    split
    · refine Follows.bind (hu.delete harg List.mem_cons_self).follows fun r hr => ?_
      obtain ⟨w, sc⟩ := r
      have hw : Here v env arg s (if sc.isOk = true then
          changeInode (changeInode w dir fun odi => { odi with linksCount := odi.linksCount - 1 })
            i fun odi => { odi with linksCount := odi.linksCount - 1 } else w) [i, dir] [dir] := by
        split
        · refine Here.change (Here.change hr harg hmem ?_) harg List.mem_cons_self ?_
          all_goals exact fun _ => ⟨rfl, rfl, rfl, rfl⟩
        · exact hr
      refine Follows.bind (hw.put hc harg (.refl _)) fun x hx => ?_
      exact Follows.bind (hx.put hc harg (.refl _)) fun z hz => .pure hz
    · refine Follows.bind (hu.put hc harg (.refl _)) fun x hx => ?_
      exact Follows.bind (hx.put hc harg (.refl _)) fun z hz => .pure hz

/-- `ext2_unlink`. -/
theorem ext2Unlink_follows (hl : ListsOk s []) (hc : c.AgreesFrom v env arg s) (harg : ArgsOk arg)
    {dirIno : Nat} (hdir : arg.ino dirIno) (name : List UInt8) :
    Follows (ext2Unlink (inodeCalls v env) v env s dirIno name)
      (ext2Unlink c v env s dirIno name) fun r => Here v env arg s r.1 [] [] := by
  unfold ext2Unlink
  refine Follows.bind ((Here.start hl).get hc harg (by decide) hdir) fun r hr => ?_
  obtain ⟨t, inode⟩ := r
  obtain ⟨dir, rfl, ht⟩ := hr
  refine Follows.bind (Ends.self _).follows fun r hfound => ?_
  match r with
  | .error e => exact Follows.bind (ht.put hc harg (.refl _)) fun z hz => .pure hz
  | .ok ino =>
    refine Follows.bind (ht.entry hc harg (by decide : 1 < nrInodes) List.mem_cons_self hfound) fun r hr => ?_
    obtain ⟨u, inode⟩ := r
    obtain ⟨i, rfl, -, hu⟩ := hr
    have hmem : dir ∈ [i, dir] := List.mem_cons_of_mem i List.mem_cons_self
    refine Follows.bind (hu.delete harg List.mem_cons_self).follows fun r hr => ?_
    obtain ⟨w, sc⟩ := r
    have hw : Here v env arg s (if sc.isOk = true then
        changeInode w i fun odi => { odi with linksCount := odi.linksCount - 1 } else w)
        [i, dir] [dir] := by
      split
      · refine Here.change hr harg List.mem_cons_self ?_
        exact fun _ => ⟨rfl, rfl, rfl, rfl⟩
      · exact hr
    refine Follows.bind (hw.put hc harg (.refl _)) fun x hx => ?_
    exact Follows.bind (hx.put hc harg (.refl _)) fun z hz => .pure hz

/-- What `ext2_rename` does with the three inodes. -/
theorem moveEntry_ends (hh : Here v env arg s₀ s held ds) (harg : ArgsOk arg)
    {srcDir dstDir i ino : Nat} (hsrc : srcDir ∈ ds) (hdst : dstDir ∈ ds) (hi : i ∈ held)
    (hino : (s.slot i).ino = ino) (srcName : List UInt8) {dstName : List UInt8}
    (hname : arg.name none dstName) :
    Ends (moveEntry v env s srcDir srcName dstDir dstName i ino) fun r =>
      Here v env arg s₀ r.1 held ds := by
  unfold moveEntry
  refine Ends.bind (hh.enter harg hdst hname hi hino) fun r hr => ?_
  obtain ⟨t, sc⟩ := r
  match sc with
  | .error e => exact .pure hr
  | .ok _ =>
    have ht := hr.change harg hi (f := fun odi => { odi with linksCount := odi.linksCount + 1 })
      fun _ => ⟨rfl, rfl, rfl, rfl⟩
    refine Ends.bind (ht.delete harg hsrc) fun r hr => ?_
    obtain ⟨u, sc⟩ := r
    match sc with
    | .error e => exact .pure hr
    | .ok _ =>
      refine .pure ?_
      simp only at hr ⊢
      exact Here.change hr harg hi fun _ => ⟨rfl, rfl, rfl, rfl⟩

/-- `ext2_rename`. -/
theorem ext2Rename_follows (hl : ListsOk s []) (hc : c.AgreesFrom v env arg s) (harg : ArgsOk arg)
    {srcDirIno dstDirIno : Nat} (hsrc : arg.ino srcDirIno) (hdst : arg.ino dstDirIno)
    (srcName : List UInt8) {dstName : List UInt8}
    (hname : arg.name none dstName) :
    Follows (ext2Rename (inodeCalls v env) v env s srcDirIno srcName dstDirIno dstName)
      (ext2Rename c v env s srcDirIno srcName dstDirIno dstName) fun r =>
        Here v env arg s r.1 [] [] := by
  unfold ext2Rename
  refine Follows.bind ((Here.start hl).get hc harg (by decide) hsrc) fun r hr => ?_
  obtain ⟨t, inode⟩ := r
  obtain ⟨srcDir, rfl, ht⟩ := hr
  refine Follows.bind (ht.get hc harg (by decide : 1 < nrInodes) hdst) fun r hr => ?_
  obtain ⟨u, inode⟩ := r
  obtain ⟨dstDir, rfl, hu⟩ := hr
  refine Follows.bind (Ends.self _).follows fun r hfound => ?_
  match r with
  | .error e =>
    refine Follows.bind (hu.put hc harg (.swap srcDir dstDir [])) fun w hw => ?_
    exact Follows.bind (hw.put hc harg (.refl _)) fun z hz => .pure hz
  | .ok ino =>
    have hmem : srcDir ∈ [dstDir, srcDir] := List.mem_cons_of_mem dstDir List.mem_cons_self
    refine Follows.bind (hu.entry hc harg (by decide : 2 < nrInodes) hmem hfound) fun r hr => ?_
    obtain ⟨w, inode⟩ := r
    obtain ⟨i, rfl, hino, hw⟩ := hr
    refine Follows.bind (moveEntry_ends hw harg hmem List.mem_cons_self List.mem_cons_self hino
      srcName hname).follows fun r hr => ?_
    obtain ⟨x, sc⟩ := r
    refine Follows.bind (hr.put hc harg (.refl _)) fun y hy => ?_
    refine Follows.bind (hy.put hc harg (.refl _)) fun y hy => ?_
    exact Follows.bind (hy.put hc harg (.refl _)) fun z hz => .pure hz

/-- `ext2_chmod` and `ext2_chown`. -/
theorem changeHandler_follows (hl : ListsOk s []) (hc : c.AgreesFrom v env arg s) (harg : ArgsOk arg)
    {ino : Nat} (hino : arg.ino ino) {f : OndiskInode → OndiskInode}
    (hf : ∀ x, (f x).size = x.size ∧ (f x).blocks = x.blocks ∧ (f x).block = x.block ∧
      (f x).mode &&& 0xF000 = x.mode &&& 0xF000) :
    Follows (changeHandler (inodeCalls v env) s ino f) (changeHandler c s ino f) fun r =>
      Here v env arg s r.1 [] [] := by
  unfold changeHandler
  refine Follows.bind ((Here.start hl).get hc harg (by decide) hino) fun r hr => ?_
  obtain ⟨t, inode⟩ := r
  obtain ⟨i, rfl, ht⟩ := hr
  have hmod := ht.change harg List.mem_cons_self hf
  exact Follows.bind (hmod.put hc harg (.refl _)) fun z hz => .pure hz

/-- The permission bits do not tell the kind of an inode. -/
theorem chmodMode_kind (old mode : UInt16) :
    chmodMode old mode &&& 0xF000 = old &&& 0xF000 := by
  have h : (old.toNat &&& 0xFE00 ||| mode.toNat &&& 0x1FF) &&& 0xF000 = old.toNat &&& 0xF000 := by
    rw [Nat.and_or_distrib_right, Nat.and_assoc, Nat.and_assoc, show 0x1FF &&& 0xF000 = 0 from rfl,
      show 0xFE00 &&& 0xF000 = 0xF000 from rfl, Nat.and_zero, Nat.or_zero]
  rw [← UInt16.toNat_inj]
  simpa [chmodMode] using h

/-- The inode numbers in a message. -/
def Request.inos : Request → List Nat
  | .read ino _ _ _ | .write ino _ _ _ | .readdir ino _ _ | .chmod ino _ | .chown ino _ _
  | .truncate ino _ => [ino]
  | .lookup dirIno _ | .create dirIno _ _ _ _ | .unlink dirIno _ | .rmdir dirIno _
  | .mkdir dirIno _ _ _ _ | .mknod dirIno _ _ _ _ => [dirIno]
  | .rename srcDirIno _ dstDirIno _ => [srcDirIno, dstDirIno]
  | .close | .other => []

/-- The names in a message that it may enter in a directory. -/
def Request.newNames : Request → List (List UInt8)
  | .create _ name _ _ _ | .mkdir _ name _ _ _ | .mknod _ name _ _ _ => [name]
  | .rename _ _ _ dstName => [dstName]
  | _ => []

/-- The inode that a request makes, if it does not fail before. -/
def Request.made (v : Volume) (env : Env) (s : Fs) : Request → Option Nat
  | .create dirIno name mode _ _ =>
    (madeInode v env s dirIno name (0x8000 ||| (mode &&& 0x1FF))).toOption.join
  | .mkdir dirIno name mode _ _ | .mknod dirIno name mode _ _ =>
    (madeInode v env s dirIno name mode).toOption.join
  | _ => none

/-- The requests that `read_file` and `write_file` serve. -/
def Request.isTransfer : Request → Bool
  | .read _ _ _ _ | .write _ _ _ _ => true
  | _ => false

theorem made_name {made : Except Fault (Option Nat)} {n : Nat} {name : List UInt8}
    (hn : made = .ok (some n))
    (hname : arg.name made.toOption.join name) : arg.name (some n) name := by
  rw [hn] at hname
  exact hname

/-- A request that is handled well leaves the lists in order and no reference
behind, and is a sequence of calls, whatever the calls do otherwise. -/
theorem handle_follows (hl : ListsOk s []) (hc : c.AgreesFrom v env arg s) (harg : ArgsOk arg)
    {req : Request} (hreq : ∀ n ∈ req.inos, arg.ino n)
    (hnames : ∀ name ∈ req.newNames, arg.name (req.made v env s) name) :
    Follows (handle (inodeCalls v env) v env s req) (handle c v env s req) fun r =>
      ListsOk r.1 [] ∧ (req.isTransfer = false → Acts v env arg (s, []) (r.1, [])) := by
  -- but for the two transfers a request is handled by calls alone
  have here : ∀ {x y : Except Fault (Fs × Reply)},
      Follows x y (fun r => Here v env arg s r.1 [] []) → Follows x y fun r =>
        ListsOk r.1 [] ∧ (req.isTransfer = false → Acts v env arg (s, []) (r.1, [])) :=
    fun h => h.mono fun r hr => ⟨hr.lists, fun _ => hr.acts⟩
  have only : ∀ reply : Reply, Follows (.ok (s, reply) : Except Fault (Fs × Reply))
      (.ok (s, reply)) fun r => Here v env arg s r.1 [] [] := fun _ => .ok (.start hl)
  cases req with
  | read ino count offset room =>
    refine Follows.bind (readFile_keepsLists s ino count offset room).follows fun r hr => ?_
    obtain ⟨t, nbytesRead⟩ := r
    cases nbytesRead <;> exact .pure ⟨hl.same hr, fun h => nomatch h⟩
  | write ino count offset msg =>
    refine Follows.bind (writeFile_keepsLists s ino count offset msg).follows fun r hr => ?_
    obtain ⟨t, nbytesWritten⟩ := r
    cases nbytesWritten <;> exact .pure ⟨hl.same hr, fun h => nomatch h⟩
  | lookup dirIno name =>
    exact here (ext2Lookup_follows hl hc harg (hreq _ List.mem_cons_self) name)
  | close => exact here (only _)
  | create dirIno name mode uid gid =>
    exact here (ext2Create_follows hl hc harg (hreq _ List.mem_cons_self)
      (fun n hn => made_name hn (hnames _ List.mem_cons_self)) uid gid)
  | readdir ino offset sz =>
    exact here (ext2Readdir_follows hl hc harg (hreq _ List.mem_cons_self) offset sz)
  | unlink dirIno name =>
    exact here (ext2Unlink_follows hl hc harg (hreq _ List.mem_cons_self) name)
  | rmdir dirIno name =>
    exact here (ext2Rmdir_follows hl hc harg (hreq _ List.mem_cons_self) name)
  | mkdir dirIno name mode uid gid =>
    exact here (ext2Mkdir_follows hl hc harg (hreq _ List.mem_cons_self)
      (fun n hn => made_name hn (hnames _ List.mem_cons_self)) uid gid)
  | mknod dirIno name mode uid gid =>
    exact here (ext2Mknod_follows hl hc harg (hreq _ List.mem_cons_self)
      (fun n hn => made_name hn (hnames _ List.mem_cons_self)) uid gid)
  | rename srcDirIno srcName dstDirIno dstName =>
    exact here (ext2Rename_follows hl hc harg (hreq _ List.mem_cons_self)
      (hreq _ (List.mem_cons_of_mem _ List.mem_cons_self)) srcName (hnames _ List.mem_cons_self))
  | chmod ino mode =>
    exact here (changeHandler_follows hl hc harg (hreq _ List.mem_cons_self)
      fun x => ⟨rfl, rfl, rfl, chmodMode_kind x.mode mode⟩)
  | chown ino uid gid =>
    exact here (changeHandler_follows hl hc harg (hreq _ List.mem_cons_self)
      fun x => ⟨rfl, rfl, rfl, rfl⟩)
  | truncate ino size => exact here (only _)
  | other => exact here (only _)

end Trace

end Cheviot.Ext2
