import Cheviot.Ext2.DirFile

/-!
# Well-formed directories

In a well-formed directory every live entry has a name of its own, and only the
first record of a block may be free. Entering and deleting names keeps it so, and
does to the directory what it would do to a finite map from names to inode numbers.

A call changes the row of one block (`DirStep`). What that does to the names is worked out on
the rows alone, and the run goes by induction over its calls, with `GoodDir` for its invariant.

* `lookupDir_names` — a lookup gives the inode a name stands for.
* `enter_wellFormed`, `delete_wellFormed` — the directory stays well-formed, and the
  one name is there afterwards, or is not.
* `dirRun_map` — so it is after any sequence of calls, none of which ends in a fault.
* `direntEnter_extends_iff` — a directory that is full is never extended.
-/

namespace Cheviot.Ext2

open Cheviot.Bytes Cheviot.Rows

/-- The live entries have names, no two the same, and a free record is the first of
its block. -/
structure WellFormed (v : Volume) (size : Nat) (rows : Nat → List Entry) : Prop where
  named : ∀ e, Holds v size rows e → e.ino ≠ 0 → e.name ≠ []
  distinct : ∀ j k x y, j * v.blockSize < size → k * v.blockSize < size → x ∈ rows j →
    y ∈ rows k → x.ino ≠ 0 → y.ino ≠ 0 → x.name = y.name → j = k ∧ x = y
  free : ∀ k, k * v.blockSize < size → ∀ e ∈ rows k, e.ino = 0 → e.off = 0

/-- A name stands for an inode. -/
def Names (v : Volume) (size : Nat) (rows : Nat → List Entry) (name : List UInt8) (ino : Nat) :
    Prop :=
  ∃ e, Holds v size rows e ∧ e.ino ≠ 0 ∧ e.name = name ∧ e.ino = ino

section Rows

variable {v : Volume} {size ino : Nat} {rows : Nat → List Entry} {name : List UInt8}

theorem WellFormed.names_inj (h : WellFormed v size rows) {ino' : Nat}
    (h1 : Names v size rows name ino) (h2 : Names v size rows name ino') : ino = ino' := by
  obtain ⟨x, ⟨j, hj, hx⟩, hx0, hxn, rfl⟩ := h1
  obtain ⟨y, ⟨k, hk, hy⟩, hy0, hyn, rfl⟩ := h2
  rw [(h.distinct j k x y hj hk hx hy hx0 hy0 (hxn.trans hyn.symm)).2]

theorem WellFormed.answers_iff (h : WellFormed v size rows) {e : Entry} (he : Holds v size rows e) :
    e.Answers name ↔ e.ino ≠ 0 ∧ e.name = name := by
  constructor
  · rintro ⟨h0, hnil | hname⟩
    · exact absurd hnil (h.named e he h0)
    · exact ⟨h0, hname⟩
  · rintro ⟨h0, hname⟩
    exact ⟨h0, .inr hname⟩

/-- No two neighbours in a block are free. -/
theorem WellFormed.not_adjacent (h : WellFormed v size rows) {c : Nat → UInt8}
    (hrows : DirRows v c size rows) {k : Nat} (hk : k * v.blockSize < size)
    {pre post : List Entry} {a b : Entry} (hrow : rows k = pre ++ a :: b :: post) :
    a.ino ≠ 0 ∨ b.ino ≠ 0 := by
  by_cases hb : b.ino = 0
  · have hmem : b ∈ rows k := by
      rw [hrow]
      simp
    have hoff := h.free k hk b hmem hb
    have ht := (hrows k hk).row
    rw [hrow, ← List.singleton_append, ← List.append_assoc] at ht
    have hbounds := ht.cut.1.bounds (List.mem_append_right pre (List.mem_singleton_self a))
    omega
  · exact .inr hb

/-! ## Entering and deleting -/

section Exchange

variable {k : Nat} {es : List Entry} {c' : Nat → UInt8}

/-- The entries after an insertion, over the whole directory. -/
theorem entered_rows (h : Entered ino name (rows k) es) :
    ∃ f ∈ es, f.ino = ino ∧ f.name = name ∧
      (∀ j x, x ∈ Function.update rows k es j → (j = k ∧ x = f) ∨ ∃ y ∈ rows j, x.Same y) ∧
      ∀ j y, y ∈ rows j → y.ino ≠ 0 → ∃ x ∈ Function.update rows k es j, x.Same y := by
  obtain ⟨f, hf, hino, hname, honly, hkept⟩ := h.spec
  refine ⟨f, hf, hino, hname, fun j x hx => ?_, fun j y hy hlive => ?_⟩
  · by_cases hj : j = k
    · subst hj
      rw [Function.update_self] at hx
      exact (honly x hx).imp_left fun heq => ⟨rfl, heq⟩
    · rw [Function.update_of_ne hj] at hx
      exact .inr ⟨x, hx, .refl x⟩
  · by_cases hj : j = k
    · subst hj
      rw [Function.update_self]
      exact hkept y hy hlive
    · rw [Function.update_of_ne hj]
      exact ⟨y, hy, .refl y⟩

/-- The entries after a deletion, over the whole directory. -/
theorem deleted_rows (h : Deleted name (rows k) es) {hi : Nat}
    (hrow : Row Entry.off Entry.len 0 hi (rows k)) :
    ∃ f ∈ rows k, f.Answers name ∧
      (∀ j x, x ∈ Function.update rows k es j → (∃ y ∈ rows j, ¬(j = k ∧ y = f) ∧ x.Same y) ∨
        (x.ino = 0 ∧ x.off = 0)) ∧
      ∀ j y, y ∈ rows j → ¬(j = k ∧ y = f) → ∃ x ∈ Function.update rows k es j, x.Same y := by
  obtain ⟨f, hf, ha, honly, hkept⟩ := h.spec hrow
  refine ⟨f, hf, ha, fun j x hx => ?_, fun j y hy hne => ?_⟩
  · by_cases hj : j = k
    · subst hj
      rw [Function.update_self] at hx
      refine (honly x hx).imp_left ?_
      rintro ⟨y, hy, hyf, hsame⟩
      exact ⟨y, hy, fun h => hyf h.2, hsame⟩
    · rw [Function.update_of_ne hj] at hx
      exact .inl ⟨x, hx, fun h => hj h.1, .refl x⟩
  · by_cases hj : j = k
    · subst hj
      rw [Function.update_self]
      exact hkept y hy fun h => hne ⟨rfl, h⟩
    · rw [Function.update_of_ne hj]
      exact ⟨y, hy, .refl y⟩

/-- A name that was not there goes into a well-formed directory. -/
theorem enter_wellFormed (hwf : WellFormed v size rows)
    (hrows : DirRows v c' size (Function.update rows k es)) (h : Entered ino name (rows k) es)
    (hk : k * v.blockSize < size) (hne : name ≠ []) (hino : ino ≠ 0)
    (habsent : ∀ n, ¬ Names v size rows name n) :
    WellFormed v size (Function.update rows k es) ∧
      ∀ name' n, Names v size (Function.update rows k es) name' n ↔
        (name' = name ∧ n = ino) ∨ Names v size rows name' n := by
  obtain ⟨f, hf, hfino, hfname, honly, hkept⟩ := entered_rows h
  have hfmem : f ∈ Function.update rows k es k := by
    rw [Function.update_self]
    exact hf
  constructor
  · -- a record of the directory is the new one or has been there before
    refine ⟨fun e ⟨j, hj, he⟩ hlive => ?_, fun j l x y hj hl hx hy hx0 hy0 hxy => ?_,
      fun j hj e he h0 => ?_⟩
    · rcases honly j e he with ⟨-, rfl⟩ | ⟨y, hy, -, hyino, hyname⟩
      · rw [hfname]
        exact hne
      · rw [hyname]
        exact hwf.named y ⟨j, hj, hy⟩ (hyino ▸ hlive)
    · rcases honly j x hx with ⟨rfl, rfl⟩ | ⟨x', hx', hxoff, hxino, hxname⟩
      · rcases honly l y hy with ⟨rfl, rfl⟩ | ⟨y', hy', -, hyino, hyname⟩
        · exact ⟨rfl, rfl⟩
        · refine absurd ⟨y', ⟨l, hl, hy'⟩, hyino ▸ hy0, ?_, rfl⟩ (habsent _)
          rw [← hyname, ← hxy, hfname]
      · rcases honly l y hy with ⟨rfl, rfl⟩ | ⟨y', hy', hyoff, hyino, hyname⟩
        · refine absurd ⟨x', ⟨j, hj, hx'⟩, hxino ▸ hx0, ?_, rfl⟩ (habsent _)
          rw [← hxname, hxy, hfname]
        · obtain ⟨rfl, rfl⟩ := hwf.distinct j l x' y' hj hl hx' hy' (hxino ▸ hx0) (hyino ▸ hy0)
            (by rw [← hxname, hxy, hyname])
          exact ⟨rfl, (hrows j hj).row.inj hx hy (hxoff.trans hyoff.symm)⟩
    · rcases honly j e he with ⟨-, rfl⟩ | ⟨y, hy, hyoff, hyino, -⟩
      · exact absurd (hfino.symm.trans h0) hino
      · rw [hyoff]
        exact hwf.free j hj y hy (hyino ▸ h0)
  · -- and so are the names
    intro name' n
    constructor
    · rintro ⟨e, ⟨j, hj, he⟩, hlive, hname', hn⟩
      rcases honly j e he with ⟨-, rfl⟩ | ⟨y, hy, -, hyino, hyname⟩
      · exact .inl ⟨hname'.symm.trans hfname, hn.symm.trans hfino⟩
      · exact .inr ⟨y, ⟨j, hj, hy⟩, hyino ▸ hlive, hyname ▸ hname', hyino ▸ hn⟩
    · rintro (⟨rfl, rfl⟩ | ⟨y, ⟨j, hj, hy⟩, hlive, hname', hn⟩)
      · exact ⟨f, ⟨k, hk, hfmem⟩, by rw [hfino]; exact hino, hfname, hfino⟩
      · obtain ⟨x, hx, -, hxino, hxname⟩ := hkept j y hy hlive
        exact ⟨x, ⟨j, hj, hx⟩, by rwa [hxino], by rwa [hxname], by rwa [hxino]⟩

/-- A name goes out of a well-formed directory. -/
theorem delete_wellFormed (hwf : WellFormed v size rows) {c : Nat → UInt8}
    (hold : DirRows v c size rows) (hrows : DirRows v c' size (Function.update rows k es))
    (h : Deleted name (rows k) es) (hk : k * v.blockSize < size) :
    WellFormed v size (Function.update rows k es) ∧
      ∀ name' n, Names v size (Function.update rows k es) name' n ↔
        name' ≠ name ∧ Names v size rows name' n := by
  obtain ⟨f, hf, ha, honly, hkept⟩ := deleted_rows h (hold k hk).row
  obtain ⟨hflive, hfname⟩ := (hwf.answers_iff ⟨k, hk, hf⟩).mp ha
  constructor
  · refine ⟨fun e ⟨j, hj, he⟩ hlive => ?_, fun j l x y hj hl hx hy hx0 hy0 hxy => ?_,
      fun j hj e he h0 => ?_⟩
    · rcases honly j e he with ⟨y, hy, -, -, hyino, hyname⟩ | ⟨h0, -⟩
      · rw [hyname]
        exact hwf.named y ⟨j, hj, hy⟩ (hyino ▸ hlive)
      · exact absurd h0 hlive
    · rcases honly j x hx with ⟨x', hx', -, hxoff, hxino, hxname⟩ | ⟨h0, -⟩
      · rcases honly l y hy with ⟨y', hy', -, hyoff, hyino, hyname⟩ | ⟨h0, -⟩
        · obtain ⟨rfl, rfl⟩ := hwf.distinct j l x' y' hj hl hx' hy' (hxino ▸ hx0) (hyino ▸ hy0)
            (by rw [← hxname, hxy, hyname])
          exact ⟨rfl, (hrows j hj).row.inj hx hy (hxoff.trans hyoff.symm)⟩
        · exact absurd h0 hy0
      · exact absurd h0 hx0
    · rcases honly j e he with ⟨y, hy, -, hyoff, hyino, -⟩ | ⟨-, hoff⟩
      · rw [hyoff]
        exact hwf.free j hj y hy (hyino ▸ h0)
      · exact hoff
  · intro name' n
    constructor
    · rintro ⟨e, ⟨j, hj, he⟩, hlive, rfl, rfl⟩
      rcases honly j e he with ⟨y, hy, hyf, -, hyino, hyname⟩ | ⟨h0, -⟩
      · refine ⟨fun heq => hyf ?_, y, ⟨j, hj, hy⟩, hyino ▸ hlive, hyname.symm, hyino.symm⟩
        exact hwf.distinct j k y f hj hk hy hf (hyino ▸ hlive) hflive
          (by rw [← hyname, heq, hfname])
      · exact absurd h0 hlive
    · rintro ⟨hne, y, ⟨j, hj, hy⟩, hlive, rfl, rfl⟩
      obtain ⟨x, hx, -, hxino, hxname⟩ := hkept j y hy fun h => hne (by rw [h.2, hfname])
      exact ⟨x, ⟨j, hj, hx⟩, by rwa [hxino], hxname, hxino⟩

end Exchange

end Rows

/-! ## The directory in a cache slot -/

/-- `lookup_dir` on the directory in cache slot `i`. -/
def dirLookup (v : Volume) (s : Fs) (i : Nat) (name : List UInt8) :
    Except Fault (Except Errno Nat) :=
  lookupDir v s.blk (s.slot i).odi name

/-- Cache slot `i` holds inode `n`, a well-formed directory whose blocks are its own. -/
structure GoodDir (v : Volume) (s : Fs) (n i : Nat) (rows : Nat → List Entry) : Prop where
  found : Found s n i
  on_volume : OnVolume v n
  map : MapOk v (nodeAt v s) s.blk (· = n)
  tiled : DirRows v (contentAt v s n) (s.slot i).odi.size.toNat rows
  wf : WellFormed v (s.slot i).odi.size.toNat rows

/-- A call that changes a directory. -/
inductive DirCall where
  | enter (name : List UInt8) (ino : Nat) (mode : UInt16)
  | delete (name : List UInt8)

namespace DirCall

/-- The call, on the directory in cache slot `i`. -/
def run (v : Volume) (env : Env) (s : Fs) (i : Nat) :
    DirCall → Except Fault (Fs × Except Errno Unit)
  | enter name ino mode => direntEnter v env s i name ino mode
  | delete name => direntDelete v env s i name

/-- A name that is entered is one that is not there, and it gets an inode number. -/
def Ok (v : Volume) (s : Fs) (i : Nat) : DirCall → Prop
  | enter name ino _ => name ≠ [] ∧ name.length ≤ nameMax ∧
      dirLookup v s i name = .ok (.error .enoent) ∧ ino ≠ noEntry ∧ ino < 2 ^ 32
  | delete _ => True

/-- The name the call is about. -/
def name : DirCall → List UInt8
  | enter name _ _ => name
  | delete name => name

/-- What a lookup of that name gives when the call has returned 0. -/
def result : DirCall → Except Errno Nat
  | enter _ ino _ => .ok ino
  | delete _ => .error .enoent

/-- The call has done to the lookups what it would do to a finite map. -/
def Applied (v : Volume) (s : Fs) (i : Nat) (s' : Fs) (r : Except Errno Unit) (call : DirCall) :
    Prop :=
  (∀ name, name ≠ call.name → dirLookup v s' i name = dirLookup v s i name) ∧
  match r with
  | .ok _ => dirLookup v s' i call.name = .ok call.result
  | .error _ => dirLookup v s' i call.name = dirLookup v s i call.name

end DirCall

/-- The states of a directory between any calls that change it. -/
inductive DirRun (v : Volume) (i : Nat) (s₀ : Fs) : Fs → Prop where
  | start : DirRun v i s₀ s₀
  | step {s s' : Fs} {env : Env} {call : DirCall} {r : Except Errno Unit} (h : DirRun v i s₀ s)
      (hok : call.Ok v s i) (hrun : call.run v env s i = .ok (s', r)) : DirRun v i s₀ s'

section Slot

variable {v : Volume} {s s' : Fs} {n i : Nat} {rows rows' : Nat → List Entry}

/-- A lookup gives the inode the name stands for. -/
theorem GoodDir.lookup (hlog : v.logBlockSize ≤ 5) (hbe : v.beCpu = false)
    (h : GoodDir v s n i rows) {name : List UInt8} (hname : name.length ≤ nameMax) :
    (dirLookup v s i name = .ok (.error .enoent) ∧
      ∀ ino, ¬ Names v (s.slot i).odi.size.toNat rows name ino) ∨
    ∃ ino, dirLookup v s i name = .ok (.ok ino) ∧
      Names v (s.slot i).odi.size.toNat rows name ino := by
  have hrows := h.tiled
  have hbytes : contentAt v s n = byteAt v s.blk (s.slot i).odi := by
    funext q
    rw [contentAt, h.found.nodeAt]
  rw [hbytes] at hrows
  rcases lookupDir_rows hlog hbe hrows hname with ⟨hrun, hnone⟩ | ⟨e, hrun, he, ha⟩
  · refine .inl ⟨hrun, ?_⟩
    rintro ino ⟨e, he, h0, hen, -⟩
    exact hnone e he ((h.wf.answers_iff he).mpr ⟨h0, hen⟩)
  · obtain ⟨h0, hen⟩ := (h.wf.answers_iff he).mp ha
    exact .inr ⟨e.ino, hrun, e, he, h0, hen, rfl⟩

/-- Two directories in which a name stands for the same give the same lookup. -/
theorem GoodDir.lookup_congr (hlog : v.logBlockSize ≤ 5) (hbe : v.beCpu = false)
    (h : GoodDir v s n i rows) (h' : GoodDir v s' n i rows') {name : List UInt8}
    (hnames : ∀ ino, Names v (s'.slot i).odi.size.toNat rows' name ino ↔
      Names v (s.slot i).odi.size.toNat rows name ino) :
    dirLookup v s' i name = dirLookup v s i name := by
  by_cases hname : name.length ≤ nameMax
  · rcases h.lookup hlog hbe hname with ⟨hrun, hnone⟩ | ⟨ino, hrun, hn⟩
    · rcases h'.lookup hlog hbe hname with ⟨hrun', -⟩ | ⟨ino', -, hn'⟩
      · rw [hrun, hrun']
      · exact absurd ((hnames ino').mp hn') (hnone ino')
    · rcases h'.lookup hlog hbe hname with ⟨-, hnone'⟩ | ⟨ino', hrun', hn'⟩
      · exact absurd ((hnames ino).mpr hn) (hnone' ino)
      · rw [hrun, hrun', h.wf.names_inj hn ((hnames ino').mp hn')]
  · rw [dirLookup, dirLookup, lookupDir, lookupDir, if_pos (by omega), if_pos (by omega)]

/-- The lookup of a name that stands for an inode. -/
theorem GoodDir.lookup_eq (hlog : v.logBlockSize ≤ 5) (hbe : v.beCpu = false)
    (h : GoodDir v s n i rows) {name : List UInt8} (hname : name.length ≤ nameMax) {ino : Nat}
    (hn : Names v (s.slot i).odi.size.toNat rows name ino) :
    dirLookup v s i name = .ok (.ok ino) := by
  rcases h.lookup hlog hbe hname with ⟨-, hnone⟩ | ⟨ino', hrun, hn'⟩
  · exact absurd hn (hnone ino)
  · rw [hrun, h.wf.names_inj hn' hn]

theorem GoodDir.lookup_none (hlog : v.logBlockSize ≤ 5) (hbe : v.beCpu = false)
    (h : GoodDir v s n i rows) {name : List UInt8} (hname : name.length ≤ nameMax)
    (hn : ∀ ino, ¬ Names v (s.slot i).odi.size.toNat rows name ino) :
    dirLookup v s i name = .ok (.error .enoent) := by
  rcases h.lookup hlog hbe hname with ⟨hrun, -⟩ | ⟨ino, -, hn'⟩
  · exact hrun
  · exact absurd hn' (hn ino)

theorem DirStep.size {live : Nat → Prop} (h : DirStep v live n i s s') :
    (s'.slot i).odi.size = (s.slot i).odi.size := by
  have hsize := congrArg OndiskInode.size h.lasting
  exact hsize

theorem DirStep.mapOk {live : Nat → Prop} (h : DirStep v live n i s s')
    (hs : MapOk v (nodeAt v s) s.blk live) : MapOk v (nodeAt v s') s'.blk live :=
  hs.prune fun m hm k p hp => .inr ⟨hm, h.place m hm k p hp⟩

/-- A directory with other entries. -/
theorem GoodDir.step (h : GoodDir v s n i rows) (hstep : DirStep v (· = n) n i s s')
    (hrows : DirRows v (contentAt v s' n) (s.slot i).odi.size.toNat rows')
    (hwf : WellFormed v (s.slot i).odi.size.toNat rows') : GoodDir v s' n i rows' := by
  refine ⟨hstep.found h.found, h.on_volume, hstep.mapOk h.map, ?_, ?_⟩
  · rw [hstep.size]
    exact hrows
  · rw [hstep.size]
    exact hwf

/-- Every live record but those of that name has stayed in its place. -/
def OthersStay (rows rows' : Nat → List Entry) (name : List UInt8) : Prop :=
  ∀ j, ∀ y ∈ rows j, y.ino ≠ 0 → y.name ≠ name → ∃ x ∈ rows' j, x.Same y

theorem OthersStay.refl (rows : Nat → List Entry) (name : List UInt8) : OthersStay rows rows name :=
  fun _ y hy _ _ => ⟨y, hy, .refl y⟩

/-- A call keeps a directory well-formed, and does what it would do to a finite map. -/
theorem GoodDir.call (hv : Layout v) (hbe : v.beCpu = false) (hsize : 4 ≤ v.sizeofIno)
    (h : GoodDir v s n i rows) (env : Env) {call : DirCall} (hok : call.Ok v s i) :
    ∃ s' r rows', call.run v env s i = .ok (s', r) ∧ GoodDir v s' n i rows' ∧
      call.Applied v s i s' r ∧ (s'.slot i).odi.size = (s.slot i).odi.size ∧
      OthersStay rows rows' call.name := by
  have hvol : ∀ m, m = n → OnVolume v m := fun m hm => hm ▸ h.on_volume
  cases call with
  | enter name ino mode =>
    obtain ⟨hne, hname, habsent, hino, hlt⟩ := hok
    rcases direntEnter_rows hv hbe hvol h.map rfl h.found h.tiled hname hlt env mode with
      ⟨hrun, -⟩ | ⟨s', k, es, hrun, hk, hent, hstep, hrows'⟩
    · exact ⟨s, _, rows, hrun, h, ⟨fun _ _ => rfl, rfl⟩, rfl, .refl rows name⟩
    · -- the name is one that is not there, so the directory stays without doubles
      have hnone : ∀ n, ¬ Names v (s.slot i).odi.size.toNat rows name n := by
        rcases h.lookup hv.log_le hbe hname with ⟨-, hnone⟩ | ⟨ino', hfound, -⟩
        · exact hnone
        · rw [habsent] at hfound
          cases hfound
      obtain ⟨hwf, hnames⟩ := enter_wellFormed h.wf hrows' hent hk hne hino hnone
      have h' := h.step hstep hrows' hwf
      obtain ⟨-, -, -, -, -, hkept⟩ := entered_rows hent
      refine ⟨s', _, _, hrun, h', ⟨fun name' hname' => ?_, ?_⟩, hstep.size,
        fun j y hy hlive _ => hkept j y hy hlive⟩
      · refine h.lookup_congr hv.log_le hbe h' fun n => ?_
        rw [hstep.size, hnames]
        exact ⟨fun hor => hor.resolve_left fun h => hname' h.1, .inr⟩
      · refine h'.lookup_eq hv.log_le hbe hname ?_
        rw [hstep.size, hnames]
        exact .inl ⟨rfl, rfl⟩
  | delete name =>
    by_cases hname : name.length ≤ nameMax
    · rcases direntDelete_rows hv hbe hsize hvol h.map rfl h.found h.tiled hname env with
        ⟨hrun, -⟩ | ⟨s', k, es, hrun, hk, hdel, -, hstep, hrows'⟩
      · exact ⟨s, _, rows, hrun, h, ⟨fun _ _ => rfl, rfl⟩, rfl, .refl rows name⟩
      · -- the one record of the name is gone, and those of the others are not
        obtain ⟨hwf, hnames⟩ := delete_wellFormed h.wf h.tiled hrows' hdel hk
        have h' := h.step hstep hrows' hwf
        obtain ⟨f, hf, ha, -, hkept⟩ := deleted_rows hdel (h.tiled k hk).row
        have hfname := ((h.wf.answers_iff ⟨k, hk, hf⟩).mp ha).2
        refine ⟨s', _, _, hrun, h', ⟨fun name' hname' => ?_, ?_⟩, hstep.size,
          fun j y hy _ hne => hkept j y hy fun hself => hne (hself.2 ▸ hfname)⟩
        · refine h.lookup_congr hv.log_le hbe h' fun n => ?_
          rw [hstep.size, hnames]
          exact ⟨And.right, fun hn => ⟨hname', hn⟩⟩
        · refine h'.lookup_none hv.log_le hbe hname fun n hn => ?_
          rw [hstep.size, hnames] at hn
          exact hn.1 rfl
    · refine ⟨s, .error .enametoolong, rows, ?_, h, ⟨fun _ _ => rfl, rfl⟩, rfl, .refl rows name⟩
      rw [DirCall.run, direntDelete, if_pos (by omega)]

/-- Any sequence of calls leaves the directory well-formed. -/
theorem DirRun.good (hv : Layout v) (hbe : v.beCpu = false) (hsize : 4 ≤ v.sizeofIno) {s₀ : Fs}
    (h₀ : GoodDir v s₀ n i rows) (hr : DirRun v i s₀ s) : ∃ rows', GoodDir v s n i rows' := by
  induction hr with
  | start => exact ⟨rows, h₀⟩
  | step h hok hrun ih =>
    obtain ⟨rows', hgood⟩ := ih
    obtain ⟨t, r, rows'', hrun', hgood', -⟩ := hgood.call hv hbe hsize _ hok
    rw [hrun'] at hrun
    cases hrun
    exact ⟨rows'', hgood'⟩

/-- Whatever calls have been made on a directory that was well-formed, it is well-formed,
no two free records are neighbours, and the next call does what it would do to a finite map. -/
theorem dirRun_map (hv : Layout v) (hbe : v.beCpu = false) (hsize : 4 ≤ v.sizeofIno) {s₀ : Fs}
    (h₀ : GoodDir v s₀ n i rows) (hr : DirRun v i s₀ s) :
    ∃ rows', GoodDir v s n i rows' ∧
      (∀ k, k * v.blockSize < (s.slot i).odi.size.toNat → ∀ pre a b post,
        rows' k = pre ++ a :: b :: post → a.ino ≠ noEntry ∨ b.ino ≠ noEntry) ∧
      ∀ env (call : DirCall), call.Ok v s i →
        ∃ s' r, call.run v env s i = .ok (s', r) ∧ call.Applied v s i s' r := by
  obtain ⟨rows', hgood⟩ := hr.good hv hbe hsize h₀
  refine ⟨rows', hgood, fun k hk pre a b post hrow => ?_, fun env call hok => ?_⟩
  · exact hgood.wf.not_adjacent hgood.tiled hk hrow
  · obtain ⟨s', r, -, hrun, -, happ, -⟩ := hgood.call hv hbe hsize env hok
    exact ⟨s', r, hrun, happ⟩

/-! ## Full directories -/

/-- Some record of the directory has room for the name. -/
def HasRoom (v : Volume) (size : Nat) (rows : Nat → List Entry) (name : List UInt8) : Prop :=
  ∃ e, Holds v size rows e ∧ e.Room (dirEntrySize name.length)

/-- `new_block` gets the directory in cache slot `i` a block behind its last one. -/
def CanExtend (v : Volume) (env : Env) (s : Fs) (i : Nat) : Prop :=
  ∃ s' block, newBlock v env s i (s.slot i).odi.size.toNat = .ok (s', some block)

/-- The name goes into the directory unless that is full and cannot be extended; in a
full one it gets a block of its own, as one record. -/
def EntersOrExtends (v : Volume) (env : Env) (s : Fs) (n i : Nat) (rows : Nat → List Entry)
    (name : List UInt8) (ino : Nat) (mode : UInt16) : Prop :=
  ∃ s' r, direntEnter v env s i name ino mode = .ok (s', r) ∧
    (r ≠ .ok () → ¬ HasRoom v (s.slot i).odi.size.toNat rows name ∧ ¬ CanExtend v env s i) ∧
    (¬ HasRoom v (s.slot i).odi.size.toNat rows name → CanExtend v env s i →
      r = .ok () ∧ (s'.slot i).odi.size.toNat = (s.slot i).odi.size.toNat + v.blockSize ∧
      Tiled (blockBytes v (contentAt v s' n) ((s.slot i).odi.size.toNat / v.blockSize)) 0
        v.blockSize [⟨0, v.blockSize, ino, name⟩] ∧
      dirLookup v s' i name = .ok (.ok ino))

/-- `dirent_enter` does what it should if and only if some record has room for the name or the
directory cannot be extended; the extension of a directory is never tried. -/
theorem direntEnter_extends_iff (hv : Layout v) (hbe : v.beCpu = false) (hvol : OnVolume v n)
    (hmap : MapOk v (nodeAt v s) s.blk (· = n)) (hf : Found s n i)
    (hrows : DirRows v (contentAt v s n) (s.slot i).odi.size.toNat rows) {name : List UInt8}
    (hname : name.length ≤ nameMax) {ino : Nat} (hino : ino < 2 ^ 32) (env : Env)
    (mode : UInt16) :
    EntersOrExtends v env s n i rows name ino mode ↔
      HasRoom v (s.slot i).odi.size.toNat rows name ∨ ¬ CanExtend v env s i := by
  have hlive : ∀ m, m = n → OnVolume v m := fun m hm => hm ▸ hvol
  rcases direntEnter_rows hv hbe hlive hmap rfl hf hrows hname hino env mode with
    ⟨hrun, hfull⟩ | ⟨s', k, es, hrun, hk, hent, -, -⟩
  · have hnone : ¬ HasRoom v (s.slot i).odi.size.toNat rows name :=
      fun ⟨e, he, hroom⟩ => hfull e he hroom
    rw [or_iff_right hnone]
    constructor
    · intro ⟨s', r, hrun', hfail, _⟩
      rw [hrun] at hrun'
      cases hrun'
      exact (hfail fun h => nomatch h).2
    · intro hext
      exact ⟨s, _, hrun, fun _ => ⟨hnone, hext⟩, fun _ h => absurd h hext⟩
  · obtain ⟨e, he, hroom⟩ := hent.room
    have hsome : HasRoom v (s.slot i).odi.size.toNat rows name := ⟨e, ⟨k, hk, he⟩, hroom⟩
    exact iff_of_true ⟨s', _, hrun, fun h => absurd rfl h, fun h => absurd hsome h⟩ (.inl hsome)

/-! ### The root directory of the small volume -/

/-- The small volume with its root directory in slot 0 of the cache. -/
def sampleDirFs : Fs :=
  { sampleFs with
    slot := fun i =>
      if i = 0 then
        { emptySlot with odi := diskInode sampleVolume sampleFs rootIno, ino := rootIno, count := 1 }
      else emptySlot
    unused := (List.range nrInodes).tail
    hash := fun h => if h = rootIno then [0] else [] }

/-- The entries `.` and `..`. -/
def sampleRows (_ : Nat) : List Entry := [⟨0, 12, 2, [0x2E]⟩, ⟨12, 1012, 2, [0x2E, 0x2E]⟩]

theorem sampleDirFs_filesOk : FilesOk sampleVolume sampleDirFs (· = 2) := by
  have hblock : OneBlock sampleVolume sampleDirFs (· = 2) 2 9 := by
    rintro m rfl
    decide
  exact filesOk_single (fun m hm => hm ▸ ⟨by decide, by decide⟩)
    (sampleFs_blockConsistent.congr (fun _ => rfl) rfl fun _ _ => rfl) hblock
    ⟨by decide, by decide, by decide⟩ ⟨0, 8, by decide, by decide, by decide, by decide⟩

theorem sampleDirFs_good : GoodDir sampleVolume sampleDirFs 2 0 sampleRows := by
  have hfirst : ∀ k, k * sampleVolume.blockSize < (sampleDirFs.slot 0).odi.size.toNat → k = 0 := by
    intro k hk
    rw [show sampleVolume.blockSize = 1024 by decide,
      show (sampleDirFs.slot 0).odi.size.toNat = 1024 by decide] at hk
    omega
  have hentry : ∀ e ∈ sampleRows 0,
      EntryAt (blockBytes sampleVolume (contentAt sampleVolume sampleDirFs 2) 0) e := by
    refine List.forall_mem_cons.mpr ⟨⟨?_, ?_, ?_, ?_⟩, List.forall_mem_singleton.mpr
      ⟨?_, ?_, ?_, ?_⟩⟩
    all_goals decide
  refine ⟨rfl, ⟨by decide, by decide⟩, sampleDirFs_filesOk.map, fun k hk => ?_, ?_, ?_, ?_⟩
  · rw [hfirst k hk]
    refine ⟨⟨rfl, by decide, rfl, by decide, ?_⟩, hentry, ?_⟩
    · show (1024 : Nat) = sampleVolume.blockSize
      decide
    · exact List.forall_mem_cons.mpr ⟨⟨by decide, by decide⟩, List.forall_mem_singleton.mpr
        ⟨by decide, by decide⟩⟩
  · rintro e ⟨k, -, he⟩ -
    have hnames : ∀ e ∈ sampleRows 0, e.name ≠ [] := by decide
    exact hnames e he
  · intro j k x y hj hk hx hy _ _ hname
    have hnames : ∀ x ∈ sampleRows 0, ∀ y ∈ sampleRows 0, x.name = y.name → x = y := by decide
    exact ⟨(hfirst j hj).trans (hfirst k hk).symm, hnames x hx y hy hname⟩
  · intro k _ e he h0
    have hlive : ∀ e ∈ sampleRows 0, e.ino ≠ 0 := by decide
    exact absurd h0 (hlive e he)

/-- `dirRun_map` where a name goes into the root directory and is deleted again. -/
theorem dirRun_map_sample :
    ∃ s₁ s, direntEnter sampleVolume sampleEnv sampleDirFs 0 [0x61] 11 0x81A4 = .ok (s₁, .ok ()) ∧
      direntDelete sampleVolume sampleEnv s₁ 0 [0x61] = .ok (s, .ok ()) ∧
      ∃ rows, GoodDir sampleVolume s 2 0 rows ∧
        (∀ k, k * sampleVolume.blockSize < (s.slot 0).odi.size.toNat → ∀ pre a b post,
          rows k = pre ++ a :: b :: post → a.ino ≠ noEntry ∨ b.ino ≠ noEntry) ∧
        ∀ env (call : DirCall), call.Ok sampleVolume s 0 →
          ∃ s' r, call.run sampleVolume env s 0 = .ok (s', r) ∧ call.Applied sampleVolume s 0 s' r := by
  -- both calls succeed
  have hreply : (direntEnter sampleVolume sampleEnv sampleDirFs 0 [0x61] 11 0x81A4 >>= fun r =>
      (direntDelete sampleVolume sampleEnv r.1 0 [0x61]).map fun t => (r.2.isOk, t.2.isOk)).toOption =
      some (true, true) := by decide +kernel
  have hok : DirCall.Ok sampleVolume sampleDirFs 0 (.enter [0x61] 11 0x81A4) :=
    ⟨by decide, by decide, by decide, by decide, by decide⟩
  cases henter : direntEnter sampleVolume sampleEnv sampleDirFs 0 [0x61] 11 0x81A4 with
  | error e =>
    rw [henter] at hreply
    cases hreply
  | ok p =>
    obtain ⟨s₁, r₁⟩ := p
    rw [henter, bind_of_ok rfl] at hreply
    cases hdelete : direntDelete sampleVolume sampleEnv s₁ 0 [0x61] with
    | error e =>
      dsimp only at hreply
      rw [hdelete] at hreply
      cases hreply
    | ok q =>
      obtain ⟨s, r⟩ := q
      dsimp only at hreply
      rw [hdelete] at hreply
      have hdone : (r₁.isOk, r.isOk) = (true, true) := Option.some.inj hreply
      cases r₁ with
      | error e => cases congrArg Prod.fst hdone
      | ok u =>
        cases r with
        | error e => cases congrArg Prod.snd hdone
        | ok u' =>
          exact ⟨s₁, s, rfl, hdelete, dirRun_map sampleVolume_layout rfl (by decide)
            sampleDirFs_good (.step (.step .start hok henter)
              (show DirCall.Ok sampleVolume s₁ 0 (.delete [0x61]) from trivial) hdelete)⟩

/-- `direntEnter_extends_iff` at the root directory, which has room for a name. -/
theorem direntEnter_extends_iff_sample :
    EntersOrExtends sampleVolume sampleEnv sampleDirFs 2 0 sampleRows [0x61] 11 0x81A4 :=
  (direntEnter_extends_iff sampleVolume_layout rfl sampleDirFs_good.on_volume sampleDirFs_good.map
    sampleDirFs_good.found sampleDirFs_good.tiled (by decide) (by decide) sampleEnv 0x81A4).mpr
    (.inl ⟨⟨12, 1012, 2, [0x2E, 0x2E]⟩, ⟨0, by decide, by decide⟩, .inr (by decide)⟩)

/-- The small volume with an empty directory, inode 12, in slot 0 of the cache. -/
def sampleEmptyFs : Fs :=
  { sampleFs with
    slot := fun i =>
      if i = 0 then
        { emptySlot with
          odi := { emptySlot.odi with mode := 0x41ED, linksCount := 2 }, ino := 12, count := 1 }
      else emptySlot
    unused := (List.range nrInodes).tail
    hash := fun h => if h = 12 then [0] else [] }

theorem sampleEmptyFs_good : GoodDir sampleVolume sampleEmptyFs 12 0 fun _ => [] := by
  have hsize : (sampleEmptyFs.slot 0).odi.size.toNat = 0 := rfl
  refine ⟨rfl, ⟨by decide, by decide⟩, mapOk_empty ?_ _, fun k hk => ?_, ?_, ?_, ?_⟩
  · intro m hm k
    rw [hm]
    rfl
  · rw [hsize] at hk
    exact absurd hk (Nat.not_lt_zero _)
  · exact fun e ⟨_, _, he⟩ => nomatch he
  · exact fun _ _ _ _ _ _ hx => nomatch hx
  · exact fun _ _ _ he => nomatch he

/-- No name goes into it, with all the blocks of the volume to be had. -/
theorem direntEnter_not_extends :
    GoodDir sampleVolume sampleEmptyFs 12 0 (fun _ => []) ∧
    ¬ EntersOrExtends sampleVolume sampleEnv sampleEmptyFs 12 0 (fun _ => []) [0x61] 11 0x81A4 := by
  refine ⟨sampleEmptyFs_good, fun ⟨s', r, hrun, _, hext⟩ => ?_⟩
  have hreply : (direntEnter sampleVolume sampleEnv sampleEmptyFs 0 [0x61] 11 0x81A4).toOption.map
      (fun r => r.2.isOk) = some false := by decide
  have hnew : (newBlock sampleVolume sampleEnv sampleEmptyFs 0
      (sampleEmptyFs.slot 0).odi.size.toNat).toOption.map (fun r => r.2) = some (some 10) := by
    decide
  have hcan : CanExtend sampleVolume sampleEnv sampleEmptyFs 0 := by
    unfold CanExtend
    generalize newBlock sampleVolume sampleEnv sampleEmptyFs 0 _ = r at hnew
    match r, hnew with
    | .ok (s', some block), _ => exact ⟨s', block, rfl⟩
  have hnone : ¬ HasRoom sampleVolume (sampleEmptyFs.slot 0).odi.size.toNat (fun _ => []) [0x61] :=
    fun ⟨e, ⟨k, _, he⟩, _⟩ => nomatch he
  obtain ⟨hr, -⟩ := hext hnone hcan
  rw [hrun, hr] at hreply
  cases hreply

end Slot

end Cheviot.Ext2
