import Cheviot.Ext2.DirList

/-!
# A scan of a directory that changes meanwhile

A cookie is the place of the first record that has not been returned. A deletion that
merges that record into the one before it leaves the cookie inside of a record that the
client has seen, and `seek_to_valid_dirent` goes back to its start.

The argument counts. An entry that stays is behind the cookie once or not at all
(`CookieAt.count`), and has been returned as often as it is missing there; a call that returns
it takes it from the one side to the other, and a change of the directory moves neither.

* `CookieAt.count` — what is left of a directory at a cookie, entry by entry.
* `ScanRun` — the calls of one client, and any calls that change the directory in between.
* `scan_once` — while each cookie is good, no entry that stays is lost or returned twice.
* `scan_twice` — one that is not.
-/

namespace Cheviot.Ext2

open Cheviot.Bytes Cheviot.Rows

/-! ## What is left at a cookie -/

/-- A client gets to see `d` of the live record `x` of block `j`, and of no other. -/
structure Shows (v : Volume) (size : Nat) (rows : Nat → List Entry) (d : Dirent) (j : Nat)
    (x : Entry) : Prop where
  block : j * v.blockSize < size
  mem : x ∈ rows j
  live : x.ino ≠ 0
  eq : ⟨x.ino, x.name⟩ = d
  only : ∀ k y, k * v.blockSize < size → y ∈ rows k → y.ino ≠ 0 → ⟨y.ino, y.name⟩ = d →
    k = j ∧ y = x

section Count

variable {v : Volume} {size j : Nat} {rows : Nat → List Entry} {d : Dirent} {x : Entry}

/-- In a well-formed directory a live record is shown by no other. -/
theorem WellFormed.shows (h : WellFormed v size rows) (hj : j * v.blockSize < size)
    (hx : x ∈ rows j) (hlive : x.ino ≠ 0) : Shows v size rows ⟨x.ino, x.name⟩ j x := by
  refine ⟨hj, hx, hlive, rfl, fun k y hk hy hy0 heq => ?_⟩
  exact h.distinct k j y x hk hj hy hx hy0 hlive (Dirent.mk.inj heq).2

/-- How often the records of a list show `d`. -/
theorem Shows.count_row (h : Shows v size rows d j x) {es : List Entry} (hnodup : es.Nodup)
    (honly : ∀ y ∈ es, y.ino ≠ 0 → ⟨y.ino, y.name⟩ = d → y = x) :
    (liveDirents es).count d = if x ∈ es then 1 else 0 := by
  induction es with
  | nil => rfl
  | cons y es ih =>
    obtain ⟨hy, hnodup⟩ := List.nodup_cons.mp hnodup
    have ih := ih hnodup fun z hz => honly z (List.mem_cons_of_mem y hz)
    by_cases hy0 : y.ino = 0
    · have hne : x ≠ y := fun heq => h.live (heq ▸ hy0)
      rw [liveDirents_cons_free hy0, ih]
      simp only [List.mem_cons, hne, false_or]
    · rw [liveDirents_cons_live hy0, List.count_cons, ih]
      by_cases heq : (⟨y.ino, y.name⟩ : Dirent) = d
      · have hyx := honly y List.mem_cons_self hy0 heq
        subst hyx
        rw [if_neg hy, if_pos (by simpa using heq), if_pos List.mem_cons_self]
      · have hne : x ≠ y := fun hxy => heq (hxy ▸ h.eq)
        simp only [List.mem_cons, hne, false_or, heq, beq_iff_eq, if_false, Nat.add_zero]

/-- How often whole blocks show `d`. -/
theorem Shows.count_from (h : Shows v size rows d j x)
    (hrow : ∀ k, k * v.blockSize < size → (rows k).Nodup) (n : Nat) :
    ∀ k, (∀ i, i < k + n → i * v.blockSize < size) →
      (liveFrom rows k n).count d = if k ≤ j ∧ j < k + n then 1 else 0 := by
  induction n with
  | zero =>
    intro k _
    rw [if_neg (by omega)]
    rfl
  | succ n ih =>
    intro k hin
    have hk := hin k (by omega)
    rw [liveFrom_succ, List.count_append, ih (k + 1) fun i hi => hin i (by omega),
      h.count_row (hrow k hk) fun y hy hy0 heq => (h.only k y hk hy hy0 heq).2]
    by_cases hkj : k = j
    · subst hkj
      rw [if_pos h.mem, if_neg (by omega), if_pos (by omega)]
    · have hnot : x ∉ rows k := fun hx => hkj (h.only k x hk hx h.live h.eq).1
      rw [if_neg hnot]
      by_cases hlt : k + 1 ≤ j ∧ j < k + 1 + n
      · rw [if_pos hlt, if_pos (by omega)]
      · rw [if_neg hlt, if_neg (by omega)]

/-- The place of a record is in its block. -/
theorem Shows.place (h : Shows v size rows d j x) {c : Nat → UInt8} (ht : DirRows v c size rows) :
    x.off < v.blockSize := by
  have hin := (ht j h.block).bounds h.mem
  have hpos := ((ht j h.block).fits x h.mem).pos
  have hmin : minDirEntrySize = 8 := rfl
  omega

/-- What is left at a cookie shows the records from its place on. -/
theorem CookieAt.count {pos : Nat} {rest : List Dirent} (h : CookieAt v size rows pos rest)
    (hmod : size % v.blockSize = 0) {c : Nat → UInt8} (ht : DirRows v c size rows)
    (hx : Shows v size rows d j x) :
    rest.count d = if pos ≤ j * v.blockSize + x.off then 1 else 0 := by
  have hplace := hx.place ht
  have hnodup : ∀ k, k * v.blockSize < size → (rows k).Nodup := fun k hk => (ht k hk).row.nodup
  -- a block that begins before the end of the directory ends before it
  have hblock : ∀ k m, k * v.blockSize < m * v.blockSize → k * v.blockSize + v.blockSize ≤
      m * v.blockSize := by
    intro k m hkm
    have hlt := Nat.lt_of_mul_lt_mul_right hkm
    calc k * v.blockSize + v.blockSize = (k + 1) * v.blockSize := by rw [Nat.add_mul, Nat.one_mul]
      _ ≤ m * v.blockSize := Nat.mul_le_mul_right _ hlt
  cases h with
  | done =>
    have hsize := Nat.div_mul_cancel (Nat.dvd_of_mod_eq_zero hmod)
    have hend := hblock j (size / v.blockSize) (by rw [hsize]; exact hx.block)
    rw [if_neg (by omega)]
    rfl
  | @record k n pre post e hk hrow =>
    have hbs : 0 < v.blockSize := by omega
    have hin : ∀ i, i < k + (n + 1) → i * v.blockSize < size := fun i hi => by
      rw [← hk]
      exact Nat.mul_lt_mul_of_pos_right hi hbs
    have hklt := hin k (by omega)
    have hrowk := (ht k hklt).row
    rw [hrow] at hrowk
    have hmem : ∀ y ∈ e :: post, y ∈ rows k := fun y hy => hrow ▸ List.mem_append_right pre hy
    have hsub : (e :: post).Nodup :=
      (hnodup k hklt).sublist (hrow ▸ List.sublist_append_right pre (e :: post))
    have hfirst := hx.count_row hsub fun y hy hy0 heq => (hx.only k y hklt (hmem y hy) hy0 heq).2
    rw [List.count_append, hfirst, hx.count_from hnodup n (k + 1) fun i hi => hin i (by omega)]
    have he := hrowk.bounds (List.mem_append_right pre List.mem_cons_self)
    -- whether the record is in a block before the cookie, in its block, or behind it
    rcases Nat.lt_trichotomy j k with hjk | hjk | hjk
    · have hnot : x ∉ e :: post := fun hmx =>
        absurd (hx.only k x hklt (hmem x hmx) hx.live hx.eq).1 (by omega)
      have hend := hblock j k (Nat.mul_lt_mul_of_pos_right hjk hbs)
      rw [if_neg hnot, if_neg (by omega), if_neg (by omega)]
    · subst hjk
      rw [if_neg (show ¬ (j + 1 ≤ j ∧ j < j + 1 + n) by omega), Nat.add_zero]
      have hiff : x ∈ e :: post ↔ j * v.blockSize + e.off ≤ j * v.blockSize + x.off := by
        have hxrow := hx.mem
        rw [hrow] at hxrow
        obtain ⟨mid, hpre, hpost⟩ := row_append.mp hrowk
        have hmid : e.off = mid := hpost.1
        constructor
        · intro hmx
          have := hpost.bounds hmx
          omega
        · intro hle
          refine (List.mem_append.mp hxrow).resolve_left fun hmx => ?_
          have := hpre.bounds hmx
          omega
      by_cases hmx : x ∈ e :: post
      · rw [if_pos hmx, if_pos (hiff.mp hmx)]
      · rw [if_neg hmx, if_neg fun hle => hmx (hiff.mpr hle)]
    · have hnot : x ∉ e :: post := fun hmx =>
        absurd (hx.only k x hklt (hmem x hmx) hx.live hx.eq).1 (by omega)
      have hjlt : j < k + (n + 1) := by
        have hxb := hx.block
        rw [← hk] at hxb
        exact Nat.lt_of_mul_lt_mul_right hxb
      have hend := hblock k j (Nat.mul_lt_mul_of_pos_right hjk hbs)
      rw [if_neg hnot, if_pos (by omega), if_pos (by omega)]

end Count

/-! ## Cookies inside of records -/

section Cookie

variable {v : Volume} {blk : Nat → Buf} {odi : OndiskInode} {rows : Nat → List Entry}

theorem CookieAt.le {size pos : Nat} {rest : List Dirent} (h : CookieAt v size rows pos rest)
    {c : Nat → UInt8} (ht : DirRows v c size rows) (hbs : 0 < v.blockSize) : pos ≤ size := by
  cases h with
  | done => exact Nat.le_refl _
  | @record k n pre post e hk hrow =>
    have hklt : k * v.blockSize < size := by
      rw [← hk]
      exact Nat.mul_lt_mul_of_pos_right (by omega) hbs
    have hkle : (k + 1) * v.blockSize ≤ size := by
      rw [← hk]
      exact Nat.mul_le_mul_right _ (by omega)
    have hmem : e ∈ rows k := hrow ▸ List.mem_append_right pre List.mem_cons_self
    have hin := (ht k hklt).bounds hmem
    rw [Nat.add_mul, Nat.one_mul] at hkle
    omega

/-- The names of what is left are no longer than a name can be. -/
theorem CookieAt.name_le {size pos : Nat} {rest : List Dirent} (h : CookieAt v size rows pos rest)
    {c : Nat → UInt8} (ht : DirRows v c size rows) (hbs : 0 < v.blockSize) {d : Dirent}
    (hd : d ∈ rest) : d.name.length ≤ nameMax := by
  cases h with
  | done => cases hd
  | @record k n pre post e hk hrow =>
    have hlt : ∀ m, m < k + (n + 1) → m * v.blockSize < size := fun m hm => by
      rw [← hk]
      exact Nat.mul_lt_mul_of_pos_right hm hbs
    rcases List.mem_append.mp hd with hd | hd
    · obtain ⟨x, hx, rfl⟩ := List.mem_map.mp hd
      have hmem : x ∈ rows k := hrow ▸ List.mem_append_right pre (List.mem_filter.mp hx).1
      exact ((ht k (hlt k (by omega))).entry x hmem).name_le
    · obtain ⟨m, x, -, hm, hx, -, rfl⟩ := mem_liveFrom hd
      exact ((ht m (hlt m (by omega))).entry x hx).name_le

theorem direntReclen_le {n m : Nat} (h : n ≤ m) : direntReclen v n ≤ direntReclen v m := by
  unfold direntReclen
  omega

/-- A cookie inside of a record is as good as the place of the record. -/
theorem getDirentsLoop_within (hlog : v.logBlockSize ≤ 5) (hbe : v.beCpu = false)
    (hrows : DirRows v (byteAt v blk odi) odi.size.toNat rows) {k p : Nat}
    (hk : (k + 1) * v.blockSize ≤ odi.size.toNat) {e : Entry} (he : e ∈ rows k) (hlo : e.off ≤ p)
    (hhi : p < e.off + e.len) (size fuel : Nat) (db : DirentBuf) :
    getDirentsLoop v blk odi size (fuel + 1) (k * v.blockSize + p) db =
      getDirentsLoop v blk odi size (fuel + 1) (k * v.blockSize + e.off) db := by
  have hbs := Volume.blockSize_bounds hlog
  have hsize := odi.size.toNat_lt
  rw [Nat.add_mul, Nat.one_mul] at hk
  obtain ⟨-, ht⟩ := hrows.block hlog (show k * v.blockSize < odi.size.toNat by omega)
  have hin := ht.bounds he
  obtain ⟨pre, post, hrow⟩ := List.append_of_mem he
  rw [hrow] at ht
  have hbase : ∀ q, q < v.blockSize →
      (k * v.blockSize + q) / v.blockSize * v.blockSize = k * v.blockSize := by
    intro q hq
    rw [Nat.mul_comm k, Nat.mul_add_div (by omega), Nat.div_eq_of_lt hq, Nat.add_zero, Nat.mul_comm]
  have hseek : ∀ q, e.off ≤ q → q < e.off + e.len →
      seekToValidDirent v (blk (readMapEntry v blk odi (k * v.blockSize))) q = .ok (some e.off) := by
    intro q hq hq'
    unfold seekToValidDirent
    rw [bind_of_ok (seekLoop_tiled hbe hq hq' pre _ 0 ht (by omega))]
    dsimp only
    rw [if_neg (by omega)]
    rfl
  have hread : ∀ q, q < v.blockSize → readMapEntry v blk odi (k * v.blockSize + q) =
      readMapEntry v blk odi (k * v.blockSize) := fun q hq => readMapEntry_block (by omega) hq
  have hp : k * v.blockSize + p < odi.size.toNat := by omega
  have hoff : k * v.blockSize + e.off < odi.size.toNat := by omega
  rw [getDirentsLoop, getDirentsLoop, if_pos hp, if_pos hoff]
  dsimp only
  rw [hbase p (by omega), hbase e.off (by omega), hread p (by omega), hread e.off (by omega),
    Nat.add_sub_cancel_left, Nat.add_sub_cancel_left, hseek p hlo hhi,
    hseek e.off (Nat.le_refl _) (by omega)]

/-- A cookie lies at the end, at the place of a record, or inside of one. -/
theorem DirRows.cookie {c : Nat → UInt8} {size : Nat} (ht : DirRows v c size rows)
    (hbs : 0 < v.blockSize) (hmod : size % v.blockSize = 0) {pos : Nat} (hpos : pos < size) :
    ∃ k p e, pos = k * v.blockSize + p ∧ (k + 1) * v.blockSize ≤ size ∧ e ∈ rows k ∧ e.off ≤ p ∧
      p < e.off + e.len := by
  have hsize := Nat.div_mul_cancel (Nat.dvd_of_mod_eq_zero hmod)
  have hdiv := Nat.div_add_mod pos v.blockSize
  have hlt := Nat.mod_lt pos hbs
  rw [Nat.mul_comm] at hdiv
  have hk : pos / v.blockSize < size / v.blockSize := by
    refine Nat.lt_of_mul_lt_mul_right (a := v.blockSize) ?_
    omega
  have hend : (pos / v.blockSize + 1) * v.blockSize ≤ size := by
    rw [← hsize]
    exact Nat.mul_le_mul_right _ hk
  have hrow := (ht (pos / v.blockSize) (by omega)).row
  obtain ⟨e, he, hlo, hhi⟩ := hrow.cover (Nat.zero_le (pos % v.blockSize)) hlt
  exact ⟨pos / v.blockSize, pos % v.blockSize, e, hdiv.symm, hend, he, hlo, hhi⟩

/-- A call of `get_dirents` with any cookie: it begins at the record the cookie lies in. -/
theorem getDirents_from (hlog : v.logBlockSize ≤ 5) (hbe : v.beCpu = false)
    (hrows : DirRows v (byteAt v blk odi) odi.size.toNat rows)
    (hmod : odi.size.toNat % v.blockSize = 0) {cookie : Nat} (hle : cookie ≤ odi.size.toNat)
    (hcookie : cookie % 4 = 0) (size : Nat) :
    ∃ first rest cookie' taken rest', getDirentsBuf v blk odi cookie size =
        .ok (cookie', (direntsSize v taken : Int), ⟨taken, direntsSize v taken⟩) ∧
      rest = taken ++ rest' ∧ CookieAt v odi.size.toNat rows first rest ∧
      CookieAt v odi.size.toNat rows cookie' rest' ∧
      ((∀ e ∈ rest, direntReclen v e.name.length ≤ size) → taken = [] → rest = []) ∧
      (first = cookie ∨ ∃ k e, (k + 1) * v.blockSize ≤ odi.size.toNat ∧ e ∈ rows k ∧
        first = k * v.blockSize + e.off ∧ first < cookie ∧ cookie < first + e.len) := by
  have hbs := Volume.blockSize_bounds hlog
  rcases Nat.lt_or_ge cookie odi.size.toNat with hlt | hge
  · -- the record that the cookie lies in
    obtain ⟨k, p, e, rfl, hend, he, hlo, hhi⟩ := hrows.cookie (by omega) hmod hlt
    obtain ⟨pre, post, hrow⟩ := List.append_of_mem he
    obtain ⟨n, hn⟩ : ∃ n, (k + (n + 1)) * v.blockSize = odi.size.toNat := by
      have hsize := Nat.div_mul_cancel (Nat.dvd_of_mod_eq_zero hmod)
      rw [← hsize] at hend
      have hk := Nat.le_of_mul_le_mul_right hend (by omega)
      refine ⟨odi.size.toNat / v.blockSize - (k + 1), ?_⟩
      rw [show k + (odi.size.toNat / v.blockSize - (k + 1) + 1) = odi.size.toNat / v.blockSize by
        omega, hsize]
    have hat := CookieAt.record hn hrow
    have hmod4 := hat.mod hlog hrows hmod
    obtain ⟨cookie', taken, rest', hrun, hrest, hat', -, hempty⟩ :=
      getDirents_page hlog hbe hrows hmod hat size
    -- the search ends at that record from any place in it
    have hsame : getDirentsBuf v blk odi (k * v.blockSize + p) size =
        getDirentsBuf v blk odi (k * v.blockSize + e.off) size := by
      rw [getDirentsBuf, getDirentsBuf, if_neg (by omega), if_neg (by omega),
        getDirentsLoop_within hlog hbe hrows hend he hlo hhi]
    refine ⟨_, _, cookie', taken, rest', hsame.trans hrun, hrest, hat, hat', hempty, ?_⟩
    rcases Nat.eq_or_lt_of_le hlo with heq | hgt
    · exact .inl (by rw [heq])
    · exact .inr ⟨k, e, hend, he, rfl, by omega, by omega⟩
  · -- at the end there is nothing to read
    obtain rfl : cookie = odi.size.toNat := by omega
    obtain ⟨cookie', taken, rest', hrun, hrest, hat', -, hempty⟩ :=
      getDirents_page hlog hbe hrows hmod .done size
    exact ⟨_, _, cookie', taken, rest', hrun, hrest, .done, hat', hempty, .inl rfl⟩

end Cookie

/-! ## The scan -/

/-- The scan of one client, of the directory in cache slot `i`: what it has been given, from
cookie 0 on, while calls for the names in `touched` have changed the directory. Every call of
the scan finds the directory and its cookie as `ok` demands. -/
inductive ScanRun (v : Volume) (ok : Fs → Nat → List (List UInt8) → Prop) (i : Nat) (s₀ : Fs) :
    Fs → Nat → List Dirent → List (List UInt8) → Prop where
  | start : ScanRun v ok i s₀ s₀ 0 [] []
  | read {s : Fs} {cookie cookie' size : Nat} {seen : List Dirent} {touched : List (List UInt8)}
      {ret : Int} {db : DirentBuf} (h : ScanRun v ok i s₀ s cookie seen touched)
      (hok : ok s cookie touched)
      (hrun : getDirentsBuf v s.blk (s.slot i).odi cookie size = .ok (cookie', ret, db)) :
      ScanRun v ok i s₀ s cookie' (seen ++ db.entries) touched
  | change {s s' : Fs} {cookie : Nat} {seen : List Dirent} {touched : List (List UInt8)}
      {env : Env} {call : DirCall} {r : Except Errno Unit}
      (h : ScanRun v ok i s₀ s cookie seen touched) (hok : call.Ok v s i)
      (hrun : call.run v env s i = .ok (s', r)) :
      ScanRun v ok i s₀ s' cookie seen (call.name :: touched)

/-- The record that the cookie lies in begins there, or is not in use, or has got its name
since the scan began. -/
def CookieGood (v : Volume) (i : Nat) (s : Fs) (cookie : Nat) (touched : List (List UInt8)) :
    Prop :=
  ∀ rows, DirRows v (byteAt v s.blk (s.slot i).odi) (s.slot i).odi.size.toNat rows →
    ∀ k e, k * v.blockSize < (s.slot i).odi.size.toNat → e ∈ rows k →
      k * v.blockSize + e.off < cookie → cookie < k * v.blockSize + e.off + e.len →
      e.ino = 0 ∨ e.name ∈ touched

/-- The cookie is at the end, or a call that has room for any entry gives none. -/
def ScanEnded (v : Volume) (i : Nat) (s : Fs) (cookie : Nat) : Prop :=
  (s.slot i).odi.size.toNat ≤ cookie ∨
    ∃ size cookie' ret db, direntReclen v nameMax ≤ size ∧
      getDirentsBuf v s.blk (s.slot i).odi cookie size = .ok (cookie', ret, db) ∧ db.entries = []

/-- Of the entries of `s₀` that have not been touched none has been given twice, and each has
been given when the scan has ended. -/
def ListedOnce (v : Volume) (i : Nat) (s₀ s : Fs) (cookie : Nat) (seen : List Dirent)
    (touched : List (List UInt8)) : Prop :=
  ∀ rows, DirRows v (byteAt v s₀.blk (s₀.slot i).odi) (s₀.slot i).odi.size.toNat rows →
    ∀ e, Holds v (s₀.slot i).odi.size.toNat rows e → e.ino ≠ 0 → e.name ∉ touched →
      seen.count ⟨e.ino, e.name⟩ ≤ 1 ∧
        (ScanEnded v i s cookie → seen.count ⟨e.ino, e.name⟩ = 1)

/-- Where a scan stands: the entries that have not been touched are where they were, and
those before the cookie have been given, once. -/
structure ScanAt (v : Volume) (n i : Nat) (rows₀ : Nat → List Entry) (size : UInt32) (s : Fs)
    (rows : Nat → List Entry) (cookie : Nat) (seen : List Dirent) (touched : List (List UInt8)) :
    Prop where
  good : GoodDir v s n i rows
  size_eq : (s.slot i).odi.size = size
  aligned : cookie % 4 = 0
  le : cookie ≤ size.toNat
  stay : ∀ j, ∀ y ∈ rows₀ j, y.ino ≠ 0 → y.name ∉ touched → ∃ x ∈ rows j, x.Same y
  once : ∀ j, ∀ y ∈ rows₀ j, j * v.blockSize < size.toNat → y.ino ≠ 0 → y.name ∉ touched →
    seen.count ⟨y.ino, y.name⟩ = if j * v.blockSize + y.off < cookie then 1 else 0

section Scan

variable {v : Volume} {n i : Nat} {rows₀ rows : Nat → List Entry} {size : UInt32} {s s' s₀ : Fs}
  {cookie : Nat} {seen : List Dirent} {touched : List (List UInt8)}

theorem GoodDir.byteRows (h : GoodDir v s n i rows) :
    DirRows v (byteAt v s.blk (s.slot i).odi) (s.slot i).odi.size.toNat rows := by
  have hrows := h.tiled
  have hbytes : contentAt v s n = byteAt v s.blk (s.slot i).odi := by
    funext q
    rw [contentAt, h.found.nodeAt]
  rwa [hbytes] at hrows

/-- What a call of `get_dirents` gives to a scan. -/
theorem ScanAt.page (h : ScanAt v n i rows₀ size s rows cookie seen touched) (hv : Layout v)
    (hbe : v.beCpu = false) (hmod : size.toNat % v.blockSize = 0) (room : Nat) :
    ∃ first rest cookie' taken rest', getDirentsBuf v s.blk (s.slot i).odi cookie room =
        .ok (cookie', (direntsSize v taken : Int), ⟨taken, direntsSize v taken⟩) ∧
      rest = taken ++ rest' ∧ CookieAt v size.toNat rows first rest ∧
      CookieAt v size.toNat rows cookie' rest' ∧
      ((∀ e ∈ rest, direntReclen v e.name.length ≤ room) → taken = [] → rest = []) ∧
      (first = cookie ∨ ∃ k e, (k + 1) * v.blockSize ≤ size.toNat ∧ e ∈ rows k ∧
        first = k * v.blockSize + e.off ∧ first < cookie ∧ cookie < first + e.len) := by
  have hrows := h.good.byteRows
  have hmod' := hmod
  have hle := h.le
  rw [← h.size_eq] at hmod' hle ⊢
  exact getDirents_from hv.log_le hbe hrows hmod' hle h.aligned room

/-- An entry that has not been touched, as it is now. -/
theorem ScanAt.shows (h : ScanAt v n i rows₀ size s rows cookie seen touched) {j : Nat} {y : Entry}
    (hj : j * v.blockSize < size.toNat) (hy : y ∈ rows₀ j) (hlive : y.ino ≠ 0)
    (hnot : y.name ∉ touched) :
    ∃ x, Shows v size.toNat rows ⟨y.ino, y.name⟩ j x ∧ x.off = y.off ∧ x.name = y.name := by
  obtain ⟨x, hx, hoff, hino, hname⟩ := h.stay j y hy hlive hnot
  have hwf := h.good.wf
  rw [h.size_eq] at hwf
  have hshows := hwf.shows hj hx (by rwa [hino])
  rw [hino, hname] at hshows
  exact ⟨x, hshows, hoff, hname⟩

/-- Changes leave what has been given alone. -/
theorem ScanAt.change (h : ScanAt v n i rows₀ size s rows cookie seen touched) (hv : Layout v)
    (hbe : v.beCpu = false) (hsize : 4 ≤ v.sizeofIno) {env : Env} {call : DirCall}
    {r : Except Errno Unit} (hok : call.Ok v s i) (hrun : call.run v env s i = .ok (s', r)) :
    ∃ rows', ScanAt v n i rows₀ size s' rows' cookie seen (call.name :: touched) := by
  obtain ⟨t, r', rows', hrun', hgood, -, hkept, hstay⟩ := h.good.call hv hbe hsize env hok
  rw [hrun'] at hrun
  cases hrun
  refine ⟨rows', hgood, hkept.trans h.size_eq, h.aligned, h.le, fun j y hy hlive hnot => ?_,
    fun j y hy hj hlive hnot => h.once j y hy hj hlive fun hin => hnot (List.mem_cons_of_mem _ hin)⟩
  obtain ⟨x, hx, hoff, hino, hname⟩ :=
    h.stay j y hy hlive fun hin => hnot (List.mem_cons_of_mem _ hin)
  have hne : x.name ≠ call.name := fun heq =>
    hnot (List.mem_cons.mpr (.inl (hname.symm.trans heq)))
  obtain ⟨z, hz, hoff', hino', hname'⟩ := hstay j x hx (by rwa [hino]) hne
  exact ⟨z, hz, hoff'.trans hoff, hino'.trans hino, hname'.trans hname⟩

/-- What is left from the record on that a good cookie lies in is what is left from the
cookie on, as far as entries go that have not been touched. -/
theorem ScanAt.first (h : ScanAt v n i rows₀ size s rows cookie seen touched)
    (hcookie : CookieGood v i s cookie touched) {j first : Nat} {d : Dirent} {x : Entry}
    (hx : Shows v size.toNat rows d j x) (hnot : x.name ∉ touched)
    (hfirst : first = cookie ∨ ∃ k e, (k + 1) * v.blockSize ≤ size.toNat ∧ e ∈ rows k ∧
      first = k * v.blockSize + e.off ∧ first < cookie ∧ cookie < first + e.len) :
    first ≤ j * v.blockSize + x.off ↔ cookie ≤ j * v.blockSize + x.off := by
  rcases hfirst with rfl | ⟨k, e, hk, he, rfl, hlo, hhi⟩
  · rfl
  · have hrows := h.good.byteRows
    rw [h.size_eq] at hrows
    have hplace := hx.place hrows
    have hkmul : k * v.blockSize < size.toNat := by
      rw [Nat.add_mul, Nat.one_mul] at hk
      omega
    have hin := (hrows k hkmul).bounds he
    have hxin := (hrows j hx.block).bounds hx.mem
    have hpos := ((hrows j hx.block).fits x hx.mem).pos
    have hmin : minDirEntrySize = 8 := rfl
    rcases Nat.lt_trichotomy j k with hjk | rfl | hjk
    · have hend : (j + 1) * v.blockSize ≤ k * v.blockSize := Nat.mul_le_mul_right _ hjk
      rw [Nat.add_mul, Nat.one_mul] at hend
      omega
    · rcases (hrows j hkmul).row.apart hx.mem he with rfl | hapart
      · -- the record is in use and was there when the scan began
        have hgood := hcookie rows h.good.byteRows j x (by rwa [h.size_eq]) hx.mem hlo hhi
        exact absurd hgood (not_or.mpr ⟨hx.live, hnot⟩)
      · omega
    · have hend : (k + 1) * v.blockSize ≤ j * v.blockSize := Nat.mul_le_mul_right _ hjk
      rw [Nat.add_mul, Nat.one_mul] at hend
      omega

/-- A call of the scan with a good cookie. -/
theorem ScanAt.read (h : ScanAt v n i rows₀ size s rows cookie seen touched) (hv : Layout v)
    (hbe : v.beCpu = false) (hmod : size.toNat % v.blockSize = 0)
    (hcookie : CookieGood v i s cookie touched) {room cookie' : Nat} {ret : Int} {db : DirentBuf}
    (hrun : getDirentsBuf v s.blk (s.slot i).odi cookie room = .ok (cookie', ret, db)) :
    ScanAt v n i rows₀ size s rows cookie' (seen ++ db.entries) touched := by
  have hbs := Volume.blockSize_bounds hv.log_le
  have hrows := h.good.byteRows
  obtain ⟨first, rest, c, taken, rest', hrun', hrest, hat, hat', -, hfirst⟩ :=
    h.page hv hbe hmod room
  rw [hrun'] at hrun
  cases hrun
  have haligned : cookie' % 4 = 0 := by
    rw [← h.size_eq] at hat' hmod
    exact hat'.mod hv.log_le hrows hmod
  rw [h.size_eq] at hrows
  refine ⟨h.good, h.size_eq, haligned, hat'.le hrows (by omega), h.stay,
    fun j y hy hj hlive hnot => ?_⟩
  obtain ⟨x, hx, hoff, hname⟩ := h.shows hj hy hlive hnot
  have honce := h.once j y hy hj hlive hnot
  have hcount := hat.count hmod hrows hx
  have hcount' := hat'.count hmod hrows hx
  have hiff := h.first hcookie hx (by rwa [hname]) hfirst
  rw [hrest, List.count_append] at hcount
  rw [hcount', hoff] at hcount
  rw [hoff] at hiff
  rw [List.count_append, honce]
  -- given before, given now and left make one
  have hbefore : (if first ≤ j * v.blockSize + y.off then 1 else 0) +
      (if j * v.blockSize + y.off < cookie then 1 else 0) = 1 := by
    by_cases hlt : j * v.blockSize + y.off < cookie
    · rw [if_pos hlt, if_neg (hiff.not.mpr (Nat.not_le.mpr hlt))]
    · rw [if_neg hlt, if_pos (hiff.mpr (Nat.not_lt.mp hlt))]
  have hafter : (if cookie' ≤ j * v.blockSize + y.off then 1 else 0) +
      (if j * v.blockSize + y.off < cookie' then 1 else 0) = 1 := by
    by_cases hlt : j * v.blockSize + y.off < cookie'
    · rw [if_pos hlt, if_neg (Nat.not_le.mpr hlt)]
    · rw [if_neg hlt, if_pos (Nat.not_lt.mp hlt)]
  dsimp only
  omega

/-- The entries that have not been touched, at any place of the scan. -/
theorem ScanAt.listedOnce (h : ScanAt v n i rows₀ size s rows cookie seen touched) (hv : Layout v)
    (hbe : v.beCpu = false) (hmod : size.toNat % v.blockSize = 0) {j : Nat} {y : Entry}
    (hj : j * v.blockSize < size.toNat) (hy : y ∈ rows₀ j) (hlive : y.ino ≠ 0)
    (hnot : y.name ∉ touched) :
    seen.count ⟨y.ino, y.name⟩ ≤ 1 ∧
      (ScanEnded v i s cookie → seen.count ⟨y.ino, y.name⟩ = 1) := by
  -- what has been shown is what lies before the cookie
  have honce := h.once j y hy hj hlive hnot
  refine ⟨by rw [honce]; split <;> omega, fun hend => ?_⟩
  obtain ⟨x, hx, hoff, hname⟩ := h.shows hj hy hlive hnot
  have hbs := Volume.blockSize_bounds hv.log_le
  have hrows := h.good.byteRows
  rw [h.size_eq] at hrows
  have hat : CookieAt v size.toNat rows size.toNat [] := .done
  have hplace := hat.count hmod hrows hx
  rw [hoff] at hplace
  have hlt : j * v.blockSize + y.off < size.toNat := by
    refine Nat.lt_of_not_le fun hle => ?_
    rw [if_pos hle] at hplace
    cases hplace
  rw [honce, if_pos]
  rcases hend with hle | ⟨room, cookie', ret, db, hroom, hrun, hnone⟩
  · rw [h.size_eq] at hle
    omega
  · obtain ⟨first, rest, c, taken, rest', hrun', hrest, hfirst, -, hempty, hwhere⟩ :=
      h.page hv hbe hmod room
    rw [hrun'] at hrun
    cases hrun
    -- the last call has given nothing, so nothing was left at its cookie
    have hnil : rest = [] := hempty (fun e he => ?_) hnone
    · have hcount := hfirst.count hmod hrows hx
      rw [hnil, hoff] at hcount
      have hbefore : j * v.blockSize + y.off < first := by
        refine Nat.lt_of_not_le fun hle => ?_
        rw [if_pos hle] at hcount
        cases hcount
      rcases hwhere with rfl | ⟨k, e, -, -, -, hlo, -⟩
      · exact hbefore
      · omega
    · exact Nat.le_trans (direntReclen_le (hfirst.name_le hrows (by omega) he)) hroom

/-- Before its first call. -/
theorem ScanAt.start (h : GoodDir v s n i rows) :
    ScanAt v n i rows (s.slot i).odi.size s rows 0 [] [] := by
  refine ⟨h, rfl, rfl, Nat.zero_le _, fun j y hy _ _ => ⟨y, hy, .refl y⟩, fun j y _ _ _ _ => ?_⟩
  rw [if_neg (Nat.not_lt_zero _)]
  rfl

/-- A scan with good cookies stands somewhere. -/
theorem ScanRun.at (hv : Layout v) (hbe : v.beCpu = false) (hsize : 4 ≤ v.sizeofIno)
    (h₀ : GoodDir v s₀ n i rows₀) (hmod : (s₀.slot i).odi.size.toNat % v.blockSize = 0)
    (h : ScanRun v (CookieGood v i) i s₀ s cookie seen touched) :
    ∃ rows, ScanAt v n i rows₀ (s₀.slot i).odi.size s rows cookie seen touched := by
  induction h with
  | start => exact ⟨rows₀, .start h₀⟩
  | read _ hok hrun ih =>
    obtain ⟨rows, hat⟩ := ih
    exact ⟨rows, hat.read hv hbe hmod hok hrun⟩
  | change _ hok hrun ih =>
    obtain ⟨rows, hat⟩ := ih
    exact hat.change hv hbe hsize hok hrun

/-- While each cookie is good, a scan gives no entry twice that has not been touched, it
has given all of them at its end, and its next call succeeds. -/
theorem scan_once (hv : Layout v) (hbe : v.beCpu = false) (hsize : 4 ≤ v.sizeofIno)
    (h₀ : GoodDir v s₀ n i rows₀) (hmod : (s₀.slot i).odi.size.toNat % v.blockSize = 0)
    (h : ScanRun v (CookieGood v i) i s₀ s cookie seen touched) :
    ListedOnce v i s₀ s cookie seen touched ∧
      ∀ size, ∃ cookie' ret db, getDirentsBuf v s.blk (s.slot i).odi cookie size =
        .ok (cookie', ret, db) ∧ 0 ≤ ret := by
  obtain ⟨rows, hat⟩ := h.at hv hbe hsize h₀ hmod
  constructor
  · rintro rows' hrows' e ⟨j, hj, he⟩ hlive hnot
    -- the entries of the directory are read off its bytes
    rw [(hrows' j hj).unique (h₀.byteRows j hj)] at he
    exact hat.listedOnce hv hbe hmod hj he hlive hnot
  · intro size
    obtain ⟨first, rest, cookie', taken, rest', hrun, -⟩ := hat.page hv hbe hmod size
    exact ⟨cookie', _, _, hrun, Int.natCast_nonneg _⟩

end Scan

/-! ### Two scans of the root directory -/

theorem cookieGood_zero (v : Volume) (i : Nat) (s : Fs) (touched : List (List UInt8)) :
    CookieGood v i s 0 touched :=
  fun _ _ _ _ _ _ hlt _ => absurd hlt (Nat.not_lt_zero _)

theorem sampleDirFs_enter : DirCall.Ok sampleVolume sampleDirFs 0 (.enter [0x61] 11 0x81A4) :=
  ⟨by decide, by decide, by decide, by decide, by decide⟩

/-- `scan_once` after a call that has given `.`, made when `a` had gone into the directory. -/
theorem scan_once_sample :
    ∃ s cookie, ListedOnce sampleVolume 0 sampleDirFs s cookie [⟨2, [0x2E]⟩] [[0x61]] := by
  have hreply : (direntEnter sampleVolume sampleEnv sampleDirFs 0 [0x61] 11 0x81A4 >>= fun r =>
      (getDirentsBuf sampleVolume r.1.blk (r.1.slot 0).odi 0 24).map fun p =>
        p.2.2.entries).toOption = some [⟨2, [0x2E]⟩] := by decide
  cases hrun : direntEnter sampleVolume sampleEnv sampleDirFs 0 [0x61] 11 0x81A4 with
  | error e =>
    rw [hrun] at hreply
    cases hreply
  | ok r =>
    rw [bind_of_ok hrun] at hreply
    cases hread : getDirentsBuf sampleVolume r.1.blk (r.1.slot 0).odi 0 24 with
    | error e =>
      rw [hread] at hreply
      cases hreply
    | ok p =>
      rw [hread] at hreply
      have hseen : p.2.2.entries = [⟨2, [0x2E]⟩] := Option.some.inj hreply
      have hentered : ScanRun sampleVolume (CookieGood sampleVolume 0) 0 sampleDirFs r.1 0 []
          [[0x61]] :=
        .change .start sampleDirFs_enter hrun
      have hscan := hentered.read (cookieGood_zero sampleVolume 0 r.1 _) hread
      rw [hseen] at hscan
      exact ⟨r.1, p.1, (scan_once sampleVolume_layout rfl (by decide) sampleDirFs_good (by decide)
        hscan).1⟩

/-- One that gives `.` twice: the cookie of its first call is the place of `..`, whose
record is then merged into that of `.`. -/
theorem scan_twice :
    GoodDir sampleVolume sampleDirFs 2 0 sampleRows ∧
      ∃ s cookie seen touched, ScanRun sampleVolume (fun _ _ _ => True) 0 sampleDirFs s cookie seen
        touched ∧ ¬ ListedOnce sampleVolume 0 sampleDirFs s cookie seen touched := by
  refine ⟨sampleDirFs_good, ?_⟩
  have hread : (getDirentsBuf sampleVolume sampleDirFs.blk (sampleDirFs.slot 0).odi 0 24).toOption =
      some (12, 24, ⟨[⟨2, [0x2E]⟩], 24⟩) := by decide
  have hreply : (direntDelete sampleVolume sampleEnv sampleDirFs 0 [0x2E, 0x2E] >>= fun r =>
      (getDirentsBuf sampleVolume r.1.blk (r.1.slot 0).odi 12 24).map fun p =>
        p.2.2.entries).toOption = some [⟨2, [0x2E]⟩] := by decide
  cases hfirst : getDirentsBuf sampleVolume sampleDirFs.blk (sampleDirFs.slot 0).odi 0 24 with
  | error e =>
    rw [hfirst] at hread
    cases hread
  | ok p =>
    rw [hfirst] at hread
    obtain rfl : p = _ := Option.some.inj hread
    cases hdel : direntDelete sampleVolume sampleEnv sampleDirFs 0 [0x2E, 0x2E] with
    | error e =>
      rw [hdel] at hreply
      cases hreply
    | ok r =>
      rw [bind_of_ok hdel] at hreply
      cases hlast : getDirentsBuf sampleVolume r.1.blk (r.1.slot 0).odi 12 24 with
      | error e =>
        rw [hlast] at hreply
        cases hreply
      | ok p =>
        rw [hlast] at hreply
        have hseen : p.2.2.entries = [⟨2, [0x2E]⟩] := Option.some.inj hreply
        -- read "."; delete ".."; read on
        have hbegun : ScanRun sampleVolume (fun _ _ _ => True) 0 sampleDirFs sampleDirFs 12
            [⟨2, [0x2E]⟩] [] :=
          .read .start trivial hfirst
        have hchanged : ScanRun sampleVolume (fun _ _ _ => True) 0 sampleDirFs r.1 12
            [⟨2, [0x2E]⟩] [[0x2E, 0x2E]] :=
          .change hbegun (show DirCall.Ok sampleVolume sampleDirFs 0 (.delete [0x2E, 0x2E]) from
            trivial) hdel
        have hscan := hchanged.read trivial hlast
        rw [hseen] at hscan
        refine ⟨_, _, _, _, hscan, fun hlisted => ?_⟩
        have hdot := hlisted sampleRows sampleDirFs_good.byteRows ⟨0, 12, 2, [0x2E]⟩
          ⟨0, by decide, by decide⟩ (by decide) (by decide)
        exact absurd hdot.1 (by decide)

end Cheviot.Ext2
