import Cheviot.Fatfs.Dir
import Mathlib.Data.List.TakeWhile

/-!
# Names of files and their directory entries: `dir.c`

A name goes into the eleven characters of an entry by way of `FatIsDosName`, which checks it
and puts it in upper case up to a slash, and comes back in lower case by
`FatDirEntryToASCIIZ`. The three scans do not agree about spaces, about a dot with nothing
behind it, and about what stands behind a slash.

* `dosForm` — the name as the check leaves it.
* `Plain` — a name whose entry shows it whole.
* `names_ok_iff` — the two directions fit together exactly for plain names that do not begin
  with the mark of a deleted entry, and do not differ in a letter behind a slash.
-/

namespace Cheviot.Fatfs

open Cheviot.Bytes

/-! ## Letters -/

/-- A character of a name, in upper case. -/
def upperCase (c : UInt8) : UInt8 :=
  if 'a'.toUInt8 ≤ c ∧ c ≤ 'z'.toUInt8 then c - ('a'.toUInt8 - 'A'.toUInt8) else c

/-- A name that `FatIsDosName` has accepted, as it leaves it. -/
def dosForm : List UInt8 → List UInt8
  | [] => []
  | c :: rest => if c = '/'.toUInt8 then c :: rest else upperCase c :: dosForm rest

section Letters

variable {c d : UInt8}

theorem char_values : 'a'.toUInt8 = 97 ∧ 'z'.toUInt8 = 122 ∧ 'A'.toUInt8 = 65 ∧ 'Z'.toUInt8 = 90 ∧
    '/'.toUInt8 = 47 ∧ '.'.toUInt8 = 46 ∧ ' '.toUInt8 = 32 ∧ '0'.toUInt8 = 48 ∧ '9'.toUInt8 = 57 := by
  decide

theorem lowerCase_upperCase (c : UInt8) : lowerCase (upperCase c) = lowerCase c := by
  obtain ⟨h1, h2, h3, h4, -⟩ := char_values
  unfold lowerCase upperCase
  rw [h1, h2, h3, h4]
  grind

/-- Characters that are no letters stand for themselves. -/
theorem lowerCase_eq_iff (hd : d < 65 ∨ 122 < d) : lowerCase c = d ↔ c = d := by
  obtain ⟨h1, h2, h3, h4, -⟩ := char_values
  unfold lowerCase
  rw [h1, h3, h4]
  grind

theorem upperCase_eq_iff (hd : d < 65 ∨ 122 < d) : upperCase c = d ↔ c = d := by
  obtain ⟨h1, h2, h3, h4, -⟩ := char_values
  unfold upperCase
  rw [h1, h2, h3]
  grind

theorem upperCase_congr (h : lowerCase c = lowerCase d) : upperCase c = upperCase d := by
  obtain ⟨h1, h2, h3, h4, -⟩ := char_values
  unfold lowerCase at h
  unfold upperCase
  rw [h1, h3, h4] at h
  rw [h1, h2, h3]
  grind

end Letters

section Lists

variable {l l' : List UInt8} {d : UInt8}

theorem map_lowerCase_dosForm (l : List UInt8) : (dosForm l).map lowerCase = l.map lowerCase := by
  induction l with
  | nil => rfl
  | cons c l ih =>
    rw [dosForm]
    split
    · rfl
    · rw [List.map_cons, List.map_cons, ih, lowerCase_upperCase]

/-- What stands behind the first slash, with it. -/
def slashTail (l : List UInt8) : List UInt8 := l.dropWhile (· ≠ '/'.toUInt8)

theorem slashTail_dosForm (l : List UInt8) : slashTail (dosForm l) = slashTail l := by
  induction l with
  | nil => rfl
  | cons c l ih =>
    have hslash : '/'.toUInt8 < 65 := by decide
    unfold slashTail at ih ⊢
    rw [dosForm]
    split
    · rfl
    next hc =>
      have hc' : upperCase c ≠ '/'.toUInt8 := fun h => hc ((upperCase_eq_iff (.inl hslash)).mp h)
      rw [List.dropWhile_cons_of_pos (by simpa using hc'),
        List.dropWhile_cons_of_pos (by simpa using hc), ih]

/-- Names that differ in the case of letters in front of the first slash alone are left as one. -/
theorem dosForm_eq_iff :
    dosForm l = dosForm l' ↔ l.map lowerCase = l'.map lowerCase ∧ slashTail l = slashTail l' := by
  constructor
  · intro h
    rw [← map_lowerCase_dosForm l, ← slashTail_dosForm l, h, map_lowerCase_dosForm,
      slashTail_dosForm]
    exact ⟨rfl, rfl⟩
  · rintro ⟨hlower, htail⟩
    have hslash : '/'.toUInt8 < 65 := by decide
    induction l generalizing l' with
    | nil =>
      rw [List.map_nil, eq_comm, List.map_eq_nil_iff] at hlower
      rw [hlower]
    | cons c l ih =>
      cases l' with
      | nil => cases hlower
      | cons c' l' =>
        rw [List.map_cons, List.map_cons, List.cons.injEq] at hlower
        obtain ⟨hc, hl⟩ := hlower
        have hiff : c = '/'.toUInt8 ↔ c' = '/'.toUInt8 := by
          rw [← lowerCase_eq_iff (.inl hslash), hc, lowerCase_eq_iff (.inl hslash)]
        unfold slashTail at htail ih
        rw [dosForm, dosForm]
        by_cases hcs : c = '/'.toUInt8
        · have hcs' := hiff.mp hcs
          rw [List.dropWhile_cons_of_neg (by simpa using hcs),
            List.dropWhile_cons_of_neg (by simpa using hcs')] at htail
          rw [if_pos hcs, if_pos hcs', htail]
        · have hcs' : ¬ c' = '/'.toUInt8 := fun h => hcs (hiff.mpr h)
          rw [List.dropWhile_cons_of_pos (by simpa using hcs),
            List.dropWhile_cons_of_pos (by simpa using hcs')] at htail
          rw [if_neg hcs, if_neg hcs', upperCase_congr hc, ih hl htail]

/-- What `FatIsDosName` leaves of a name it accepts. -/
theorem fatIsDosNameLoop_some {charSigned : Bool} : ∀ {nameCnt extensionCnt dotCnt : Nat}
    {p : List UInt8}, fatIsDosNameLoop charSigned nameCnt extensionCnt dotCnt l = some p →
    p = dosForm l := by
  induction l with
  | nil =>
    intro nameCnt extensionCnt dotCnt p h
    cases h
    rfl
  | cons c l ih =>
    intro nameCnt extensionCnt dotCnt p h
    rw [fatIsDosNameLoop] at h
    rw [dosForm]
    by_cases hslash : c = '/'.toUInt8
    · rw [if_pos hslash] at h ⊢
      cases h
      rfl
    rw [if_neg hslash] at h ⊢
    by_cases hdot : c = '.'.toUInt8
    · rw [if_pos hdot] at h
      split at h
      · cases h
      · obtain ⟨p', hp', rfl⟩ := Option.map_eq_some_iff.mp h
        rw [ih hp', (upperCase_eq_iff (.inl (by decide))).mpr hdot, hdot]
    · rw [if_neg hdot] at h
      dsimp only at h
      simp only [Option.ite_none_left_eq_some, Option.ite_none_right_eq_some] at h
      obtain ⟨-, -, -, -, h⟩ := h
      obtain ⟨p', hp', rfl⟩ := Option.map_eq_some_iff.mp h
      rw [ih hp', upperCase]
      simp only [decide_eq_true_eq]

theorem fatIsDosName_some {charSigned : Bool} {name p : List UInt8}
    (h : fatIsDosName charSigned name = some p) : p = dosForm (cstr name) :=
  fatIsDosNameLoop_some h

end Lists

/-! ## The fields of an entry -/

/-- The characters of the name field, without its padding. -/
def nameField (p : List UInt8) : List UInt8 := (p.take 8).takeWhile (· ≠ '.'.toUInt8)

/-- The characters of the extension, without its padding. -/
def extensionField (p : List UInt8) : List UInt8 :=
  match p.drop (nameField p).length with
  | c :: rest => if c = '.'.toUInt8 then rest.take 3 else []
  | [] => []

/-- What `FatDirEntryToASCIIZ` shows of two fields. -/
def shown (name extension : List UInt8) : List UInt8 :=
  (name.takeWhile (· ≠ ' '.toUInt8)).map lowerCase ++
    (if extension.head? ≠ some ' '.toUInt8 then ['.'.toUInt8] else []) ++
    (extension.takeWhile (· ≠ ' '.toUInt8)).map lowerCase

theorem fatDirEntryToASCIIZ_eq (dirent : FatDirEntry) :
    fatDirEntryToASCIIZ dirent = shown dirent.name dirent.extension := rfl

section Fields

variable {p l : List UInt8} {n : Nat}

theorem nameField_length_le (p : List UInt8) : (nameField p).length ≤ 8 := by
  have htake := (List.takeWhile_prefix (l := p.take 8) (· ≠ '.'.toUInt8)).length_le
  have h8 := List.length_take_le 8 p
  exact Nat.le_trans htake h8

theorem extensionField_length_le (p : List UInt8) : (extensionField p).length ≤ 3 := by
  unfold extensionField
  split
  · split
    · exact List.length_take_le ..
    · exact Nat.zero_le _
  · exact Nat.zero_le _

theorem padField_length (h : l.length ≤ n) : (padField n l).length = n := by
  rw [padField, List.length_append, List.length_replicate]
  omega

/-- The bytes that were stored in an entry. -/
theorem getBytes_setBytes (dirent : FatDirEntry) {o : Nat} (h : o + l.length ≤ 32) :
    getBytes (dirent.setBytes o l).byte o l.length = l := by
  apply List.ext_getElem
  · rw [getBytes_length]
  · intro k hk hk'
    simp only [getBytes, List.getElem_map, List.getElem_range]
    rw [FatDirEntry.byte_setBytes (by omega), stBytes_apply (by omega) (by omega),
      Nat.add_sub_cancel_left, List.getD_eq_getElem _ _ hk']

/-- The other bytes of it. -/
theorem getBytes_setBytes_ne (dirent : FatDirEntry) {o o' m : Nat} (hm : o + m ≤ 32)
    (hne : o + m ≤ o' ∨ o' + l.length ≤ o) :
    getBytes (dirent.setBytes o' l).byte o m = getBytes dirent.byte o m := by
  apply getBytes_congr
  intro i h1 h2
  rw [FatDirEntry.byte_setBytes (by omega), stBytes_apply_ne (by omega)]

/-- What `FatASCIIZToDirEntry` puts into an entry, and what it leaves. -/
theorem fatASCIIZToDirEntry_some {charSigned : Bool} {dirent e : FatDirEntry} {name : List UInt8}
    (h : fatASCIIZToDirEntry charSigned dirent name = some e) :
    e.name = padField 8 (nameField (dosForm (cstr name))) ∧
      e.extension = padField 3 (extensionField (dosForm (cstr name))) ∧
      e.attributes = dirent.attributes := by
  obtain ⟨p, hp, rfl⟩ := Option.map_eq_some_iff.mp h
  rw [← fatIsDosName_some hp]
  have h8 := padField_length (nameField_length_le p)
  have h3 := padField_length (extensionField_length_le p)
  refine ⟨?_, ?_, ?_⟩
  · have hname := getBytes_setBytes dirent (o := 0) (l := padField 8 (nameField p)) (by omega)
    rw [h8] at hname
    exact (getBytes_setBytes_ne _ (by decide) (.inl (by decide))).trans hname
  · have hext := getBytes_setBytes (dirent.setBytes 0 (padField 8 (nameField p))) (o := 8)
      (l := padField 3 (extensionField p)) (by omega)
    rw [h3] at hext
    exact hext
  · have hext : 8 + (padField 3 (extensionField p)).length ≤ 11 := by omega
    have hname : 0 + (padField 8 (nameField p)).length ≤ 11 := by omega
    show FatDirEntry.byte _ 11 = dirent.byte 11
    rw [FatDirEntry.byte_setBytes (by decide)]
    refine (stBytes_apply_ne (.inr hext)).trans ?_
    rw [FatDirEntry.byte_setBytes (by decide)]
    exact stBytes_apply_ne (.inr hname)

/-! ## What is shown of the fields -/

theorem length_takeWhile_eq {q : UInt8 → Bool} (h : l.length ≤ (l.takeWhile q).length) :
    l.takeWhile q = l :=
  (List.takeWhile_prefix q).eq_of_length_le h

/-- The padding of a field is not shown. -/
theorem takeWhile_padField (n : Nat) (l : List UInt8) :
    (padField n l).takeWhile (· ≠ ' '.toUInt8) = l.takeWhile (· ≠ ' '.toUInt8) := by
  rw [padField, List.takeWhile_append]
  split
  next h =>
    rw [List.takeWhile_replicate, if_neg (by decide), List.append_nil,
      length_takeWhile_eq (Nat.le_of_eq h.symm)]
  · rfl

/-- A field without spaces is known from the padded one. -/
theorem padField_inj {l' : List UInt8} (h : ' '.toUInt8 ∉ l) (h' : ' '.toUInt8 ∉ l')
    (heq : padField n l = padField n l') : l = l' := by
  have hall : ∀ {m : List UInt8}, ' '.toUInt8 ∉ m → m.takeWhile (· ≠ ' '.toUInt8) = m := by
    intro m hm
    rw [List.takeWhile_eq_self_iff]
    intro x hx
    simp only [decide_eq_true_eq]
    exact fun hsp => hm (hsp ▸ hx)
  rw [← hall h, ← takeWhile_padField n l, heq, takeWhile_padField, hall h']

/-! ## Plain names -/

/-- A name of up to eight characters, with a dot and one to three behind it or without one, and
no spaces. -/
structure Plain (l : List UInt8) : Prop where
  name_le : (l.takeWhile (· ≠ '.'.toUInt8)).length ≤ 8
  name : ' '.toUInt8 ∉ l.takeWhile (· ≠ '.'.toUInt8)
  extension : ∀ e, l.dropWhile (· ≠ '.'.toUInt8) = '.'.toUInt8 :: e →
    e ≠ [] ∧ e.length ≤ 3 ∧ ' '.toUInt8 ∉ e

theorem map_lowerCase_scan (l : List UInt8) :
    (l.map lowerCase).takeWhile (· ≠ '.'.toUInt8) =
      (l.takeWhile (· ≠ '.'.toUInt8)).map lowerCase ∧
    (l.map lowerCase).dropWhile (· ≠ '.'.toUInt8) =
      (l.dropWhile (· ≠ '.'.toUInt8)).map lowerCase := by
  have hdot : ((fun c => decide (c ≠ '.'.toUInt8)) ∘ lowerCase) =
      fun c => decide (c ≠ '.'.toUInt8) := by
    funext c
    simp only [Function.comp_apply, decide_eq_decide]
    rw [ne_eq, lowerCase_eq_iff (.inl (by decide))]
  rw [List.takeWhile_map, List.dropWhile_map, hdot]
  exact ⟨rfl, rfl⟩

theorem mem_map_lowerCase {d : UInt8} (hd : d < 65 ∨ 122 < d) :
    d ∈ l.map lowerCase ↔ d ∈ l := by
  rw [List.mem_map]
  constructor
  · rintro ⟨c, hc, heq⟩
    rw [← (lowerCase_eq_iff hd).mp heq]
    exact hc
  · exact fun h => ⟨d, h, (lowerCase_eq_iff hd).mpr rfl⟩

/-- The case of letters does not matter. -/
theorem plain_map_lowerCase (l : List UInt8) : Plain (l.map lowerCase) ↔ Plain l := by
  obtain ⟨htake, hdrop⟩ := map_lowerCase_scan l
  have hspace : ' '.toUInt8 < 65 := by decide
  constructor
  · intro h
    have hle := h.name_le
    have hname := h.name
    rw [htake] at hle hname
    rw [List.length_map] at hle
    rw [mem_map_lowerCase (.inl hspace)] at hname
    refine ⟨hle, hname, fun e he => ?_⟩
    have hext := h.extension (e.map lowerCase)
    rw [hdrop, he, List.length_map, mem_map_lowerCase (.inl hspace), ne_eq, List.map_eq_nil_iff]
      at hext
    exact hext rfl
  · intro h
    constructor
    · rw [htake, List.length_map]
      exact h.name_le
    · rw [htake, mem_map_lowerCase (.inl hspace)]
      exact h.name
    · intro e he
      rw [hdrop] at he
      obtain ⟨c, e', hrest, hc, rfl⟩ := List.map_eq_cons_iff.mp he
      rw [lowerCase_eq_iff (.inl (by decide))] at hc
      rw [hc] at hrest
      rw [List.length_map, mem_map_lowerCase (.inl hspace), ne_eq, List.map_eq_nil_iff]
      exact h.extension e' hrest

/-- A name is cut at its first dot, if it has one. -/
theorem cut_at_dot (p : List UInt8) :
    p.dropWhile (· ≠ '.'.toUInt8) = [] ∨
      ∃ e, p.dropWhile (· ≠ '.'.toUInt8) = '.'.toUInt8 :: e := by
  cases hrest : p.dropWhile (· ≠ '.'.toUInt8) with
  | nil => exact .inl rfl
  | cons c e =>
    have hhead := List.head?_dropWhile_not (· ≠ '.'.toUInt8) p
    rw [hrest] at hhead
    simp only [List.head?_cons, decide_not, Bool.not_eq_false', decide_eq_true_eq] at hhead
    rw [hhead]
    exact .inr ⟨e, rfl⟩

theorem nameField_eq (p : List UInt8) : nameField p = (p.takeWhile (· ≠ '.'.toUInt8)).take 8 :=
  (List.take_takeWhile ..).symm

/-- The fields of a name whose first part is not too long. -/
theorem fields_eq (h : (p.takeWhile (· ≠ '.'.toUInt8)).length ≤ 8) :
    nameField p = p.takeWhile (· ≠ '.'.toUInt8) ∧
      extensionField p = (p.dropWhile (· ≠ '.'.toUInt8)).tail.take 3 := by
  have hname : nameField p = p.takeWhile (· ≠ '.'.toUInt8) := by
    rw [nameField_eq, List.take_of_length_le h]
  have hdrop : p.drop (nameField p).length = p.dropWhile (· ≠ '.'.toUInt8) := by
    have hcut := @List.drop_left _ (p.takeWhile (· ≠ '.'.toUInt8)) (p.dropWhile (· ≠ '.'.toUInt8))
    rwa [List.takeWhile_append_dropWhile, ← hname] at hcut
  refine ⟨hname, ?_⟩
  unfold extensionField
  rw [hdrop]
  rcases cut_at_dot p with hnil | ⟨e, he⟩
  · rw [hnil]
    rfl
  · rw [he]
    exact if_pos rfl

/-- A name whose first part is too long has no extension in its entry. -/
theorem extensionField_of_lt (h : 8 < (p.takeWhile (· ≠ '.'.toUInt8)).length) :
    extensionField p = [] := by
  have h8 : (nameField p).length = 8 := by
    rw [nameField_eq, List.length_take]
    omega
  unfold extensionField
  rw [h8]
  split
  next c rest hrest =>
    have hmem : c ∈ p.takeWhile (· ≠ '.'.toUInt8) := by
      have hcut : p = p.takeWhile (· ≠ '.'.toUInt8) ++ p.dropWhile (· ≠ '.'.toUInt8) :=
        List.takeWhile_append_dropWhile.symm
      rw [hcut, List.drop_append_of_le_length (by omega)] at hrest
      have hc : (p.takeWhile (· ≠ '.'.toUInt8)).drop 8 ≠ [] := by
        rw [ne_eq, List.drop_eq_nil_iff]
        omega
      obtain ⟨c', l, hl⟩ := List.exists_cons_of_ne_nil hc
      rw [hl, List.cons_append, List.cons.injEq] at hrest
      rw [← hrest.1]
      exact List.mem_of_mem_drop (hl ▸ List.mem_cons_self)
    have hne := List.mem_takeWhile_imp hmem
    rw [if_neg (by simpa using hne)]
  · rfl

/-- The dot is shown where the extension does not begin with a space. -/
theorem head?_padField (l : List UInt8) :
    (padField 3 l).head? ≠ some ' '.toUInt8 ↔ l ≠ [] ∧ l.head? ≠ some ' '.toUInt8 := by
  cases l with
  | nil => exact ⟨fun h => absurd rfl h, fun h => absurd rfl h.1⟩
  | cons c l => exact ⟨fun h => ⟨List.cons_ne_nil _ _, h⟩, fun h => h.2⟩

/-- What is shown of a name, in the parts of it that the fields hold. -/
theorem shown_padField (name extension : List UInt8) :
    shown (padField 8 name) (padField 3 extension) =
      (name.takeWhile (· ≠ ' '.toUInt8)).map lowerCase ++
      (if extension ≠ [] ∧ extension.head? ≠ some ' '.toUInt8 then ['.'.toUInt8] else []) ++
      (extension.takeWhile (· ≠ ' '.toUInt8)).map lowerCase := by
  unfold shown
  rw [takeWhile_padField, takeWhile_padField]
  simp only [head?_padField]

theorem takeWhile_not_mem (h : ' '.toUInt8 ∉ l) : l.takeWhile (· ≠ ' '.toUInt8) = l := by
  rw [List.takeWhile_eq_self_iff]
  intro x hx
  simp only [decide_eq_true_eq]
  exact fun hsp => h (hsp ▸ hx)

theorem not_mem_of_takeWhile (h : l.length ≤ (l.takeWhile (· ≠ ' '.toUInt8)).length) :
    ' '.toUInt8 ∉ l := by
  intro hmem
  rw [← length_takeWhile_eq h] at hmem
  have hne := List.mem_takeWhile_imp hmem
  simp at hne

/-- The entry of a plain name shows it. -/
theorem Plain.shown_eq (h : Plain p) :
    shown (padField 8 (nameField p)) (padField 3 (extensionField p)) = p.map lowerCase := by
  obtain ⟨hname, hext⟩ := fields_eq h.name_le
  have hcut : p.takeWhile (· ≠ '.'.toUInt8) ++ p.dropWhile (· ≠ '.'.toUInt8) = p :=
    List.takeWhile_append_dropWhile
  rw [shown_padField, hname, hext, takeWhile_not_mem h.name]
  rcases cut_at_dot p with hnil | ⟨e, he⟩
  · rw [hnil, List.append_nil] at hcut
    rw [hcut, hnil]
    simp only [List.tail_nil, List.take_nil, ne_eq, not_true_eq_false, false_and, if_false,
      List.takeWhile_nil, List.map_nil, List.append_nil]
  · obtain ⟨hne, h3, hspace⟩ := h.extension e he
    rw [he] at hcut ⊢
    have hhead : e.head? ≠ some ' '.toUInt8 := by
      intro heq
      obtain ⟨l, hl⟩ := List.head?_eq_some_iff.mp heq
      exact hspace (hl ▸ List.mem_cons_self)
    rw [List.tail_cons, List.take_of_length_le h3, takeWhile_not_mem hspace, if_pos ⟨hne, hhead⟩]
    conv_rhs => rw [← hcut]
    rw [List.map_append, List.map_cons, (lowerCase_eq_iff (.inl (by decide))).mpr rfl]
    simp

/-- Of a name that is not plain, the entry shows less. -/
theorem plain_of_shown
    (h : shown (padField 8 (nameField p)) (padField 3 (extensionField p)) = p.map lowerCase) :
    Plain p := by
  have hcut : p.takeWhile (· ≠ '.'.toUInt8) ++ p.dropWhile (· ≠ '.'.toUInt8) = p :=
    List.takeWhile_append_dropWhile
  have hlen := congrArg List.length h
  have hcut' := congrArg List.length hcut
  rw [shown_padField] at hlen
  simp only [List.length_append, List.length_map] at hlen hcut'
  have hshort : ∀ m : List UInt8, (m.takeWhile (· ≠ ' '.toUInt8)).length ≤ m.length :=
    fun m => (List.takeWhile_prefix _).length_le
  have hname' := hshort (nameField p)
  -- a name that is too long in front of the dot shows eight bytes of it, and no more
  rcases Nat.lt_or_ge 8 (p.takeWhile (· ≠ '.'.toUInt8)).length with hlt | hle
  · have h8 := nameField_length_le p
    rw [extensionField_of_lt hlt] at hlen
    rw [if_neg (fun h => h.1 rfl), List.takeWhile_nil, List.length_nil] at hlen
    omega
  · obtain ⟨hname, hext⟩ := fields_eq hle
    rw [hname, hext] at hlen
    rw [hname] at hname'
    rcases cut_at_dot p with hnil | ⟨e, he⟩
    · -- a name without a dot
      rw [hnil, List.length_nil] at hcut'
      rw [hnil, List.tail_nil, List.take_nil, if_neg (fun h => h.1 rfl), List.takeWhile_nil,
        List.length_nil] at hlen
      refine ⟨hle, not_mem_of_takeWhile (by omega), fun e he => ?_⟩
      rw [hnil] at he
      cases he
    · rw [he, List.tail_cons] at hlen
      rw [he, List.length_cons] at hcut'
      have h3 := hshort (e.take 3)
      have htake := (List.take_sublist 3 e).length_le
      -- one with a dot shows it only if there is something behind it
      by_cases hdot : e.take 3 ≠ [] ∧ (e.take 3).head? ≠ some ' '.toUInt8
      · rw [if_pos hdot, List.length_singleton] at hlen
        have htake3 := List.length_take_le 3 e
        refine ⟨hle, not_mem_of_takeWhile (by omega), fun e' he' => ?_⟩
        rw [he, List.cons.injEq] at he'
        rw [← he'.2]
        have hall : e.take 3 = e := List.take_of_length_le (by omega)
        rw [hall] at hdot hlen htake3
        exact ⟨hdot.1, by omega, not_mem_of_takeWhile (by omega)⟩
      · rw [if_neg hdot, List.length_nil] at hlen
        omega

/-- The fields of a plain name make it up. -/
theorem Plain.eq_fields (h : Plain p) : ' '.toUInt8 ∉ nameField p ∧ ' '.toUInt8 ∉ extensionField p ∧
    p = nameField p ++
      if extensionField p = [] then [] else '.'.toUInt8 :: extensionField p := by
  obtain ⟨hname, hext⟩ := fields_eq h.name_le
  have hcut : p.takeWhile (· ≠ '.'.toUInt8) ++ p.dropWhile (· ≠ '.'.toUInt8) = p :=
    List.takeWhile_append_dropWhile
  rw [hname, hext]
  rcases cut_at_dot p with hnil | ⟨e, he⟩
  · rw [hnil] at hcut ⊢
    exact ⟨h.name, List.not_mem_nil, hcut.symm⟩
  · obtain ⟨hne, h3, hspace⟩ := h.extension e he
    rw [he] at hcut ⊢
    rw [List.tail_cons, List.take_of_length_le h3, if_neg hne]
    exact ⟨h.name, hspace, hcut.symm⟩

theorem Plain.fields_inj {p' : List UInt8} (h : Plain p) (h' : Plain p')
    (hname : padField 8 (nameField p) = padField 8 (nameField p'))
    (hext : padField 3 (extensionField p) = padField 3 (extensionField p')) : p = p' := by
  obtain ⟨hn, he, hp⟩ := h.eq_fields
  obtain ⟨hn', he', hp'⟩ := h'.eq_fields
  rw [hp, hp', padField_inj hn hn' hname, padField_inj he he' hext]

end Fields

/-! ## The entry of a name -/

section Entries

variable {charSigned : Bool} {dirent dirent' e e' : FatDirEntry} {name name' : List UInt8}

/-- The entry of a name is in use, shows the name in lower case, and is found under it alone. -/
structure NameOk (e : FatDirEntry) (name : List UInt8) : Prop where
  in_use : e.byte 0 ≠ direntryFree ∧ e.byte 0 ≠ direntryDeleted
  shown : fatDirEntryToASCIIZ e = (cstr name).map lowerCase
  found : ∀ comp, fatCmpDirent e comp = true ↔ cstr comp = (cstr name).map lowerCase

/-- The name is plain and does not begin with the mark of a deleted entry, and the entry that is
filled is not a part of a long name. -/
structure NameFit (dirent : FatDirEntry) (name : List UInt8) : Prop where
  plain : Plain (cstr name)
  first : (cstr name).head? ≠ some direntryDeleted
  attributes : dirent.attributes &&& attrLongFilename ≠ attrLongFilename

/-- Each of two entries shows its name, and they have the same characters exactly if the names are
the same but for the case of their letters. -/
structure NamesOk (e e' : FatDirEntry) (name name' : List UInt8) : Prop where
  left : NameOk e name
  right : NameOk e' name'
  same : (e.name = e'.name ∧ e.extension = e'.extension) ↔
    (cstr name).map lowerCase = (cstr name').map lowerCase

/-- Both names fit, and do not differ only in the case of letters behind a slash. -/
structure NamesFit (dirent dirent' : FatDirEntry) (name name' : List UInt8) : Prop where
  left : NameFit dirent name
  right : NameFit dirent' name'
  slash : (cstr name).map lowerCase = (cstr name').map lowerCase →
    slashTail (cstr name) = slashTail (cstr name')

theorem plain_dosForm (l : List UInt8) : Plain (dosForm l) ↔ Plain l := by
  rw [← plain_map_lowerCase, map_lowerCase_dosForm, plain_map_lowerCase]

theorem head?_dosForm {d : UInt8} (hd : d < 65 ∨ 122 < d) (l : List UInt8) :
    (dosForm l).head? = some d ↔ l.head? = some d := by
  cases l with
  | nil => exact Iff.rfl
  | cons c l =>
    rw [dosForm]
    split
    · exact Iff.rfl
    · rw [List.head?_cons, List.head?_cons, Option.some.injEq, Option.some.injEq,
        upperCase_eq_iff hd]

theorem zero_not_mem_cstr (l : List UInt8) : 0 ∉ cstr l := by
  intro h
  have hne := List.mem_takeWhile_imp h
  simp at hne

/-- A name has no NUL in lower case either. -/
theorem cstr_map_lowerCase (l : List UInt8) :
    cstr ((cstr l).map lowerCase) = (cstr l).map lowerCase := by
  show List.takeWhile _ _ = _
  rw [List.takeWhile_eq_self_iff]
  intro x hx
  simp only [decide_eq_true_eq]
  intro hzero
  rw [hzero, mem_map_lowerCase (.inl (by decide))] at hx
  exact zero_not_mem_cstr l hx

/-- The first character of an entry is that of the name, or the padding. -/
theorem head?_nameField {p : List UInt8} {d : UInt8} (hdot : d ≠ '.'.toUInt8)
    (hspace : d ≠ ' '.toUInt8) : (padField 8 (nameField p)).head? = some d ↔ p.head? = some d := by
  cases p with
  | nil =>
    refine iff_of_false (fun h => hspace ?_) (fun h => nomatch h)
    exact (Option.some.inj h).symm
  | cons c p =>
    rw [nameField_eq]
    by_cases hc : c = '.'.toUInt8
    · rw [List.takeWhile_cons_of_neg (by simpa using hc)]
      refine iff_of_false (fun h => hspace (Option.some.inj h).symm) (fun h => hdot ?_)
      rw [← Option.some.inj h, hc]
    · rw [List.takeWhile_cons_of_pos (by simpa using hc)]
      exact Iff.rfl

/-- The first character of the entry of a name. -/
theorem byte_zero_eq_iff (h : fatASCIIZToDirEntry charSigned dirent name = some e) {d : UInt8}
    (hdot : d ≠ '.'.toUInt8) (hspace : d ≠ ' '.toUInt8) (hd : d < 65 ∨ 122 < d) :
    e.byte 0 = d ↔ (cstr name).head? = some d := by
  obtain ⟨hname, -, -⟩ := fatASCIIZToDirEntry_some h
  have hhead : e.name.head? = some (e.byte 0) := rfl
  rw [← head?_dosForm hd, ← head?_nameField hdot hspace, ← hname, hhead, Option.some.injEq]

/-- The entry of one name. -/
theorem nameOk_iff (h : fatASCIIZToDirEntry charSigned dirent name = some e) :
    NameOk e name ↔ NameFit dirent name := by
  obtain ⟨hname, hext, hattr⟩ := fatASCIIZToDirEntry_some h
  have hdeleted : e.byte 0 = direntryDeleted ↔ (cstr name).head? = some direntryDeleted :=
    byte_zero_eq_iff h (by decide) (by decide) (.inr (by decide))
  have hshown : fatDirEntryToASCIIZ e = (cstr name).map lowerCase ↔ Plain (cstr name) := by
    rw [fatDirEntryToASCIIZ_eq, hname, hext, ← map_lowerCase_dosForm, ← plain_dosForm]
    exact ⟨plain_of_shown, Plain.shown_eq⟩
  constructor
  · intro hok
    refine ⟨hshown.mp hok.shown, fun hfirst => hok.in_use.2 (hdeleted.mpr hfirst), ?_⟩
    have hcmp := (hok.found ((cstr name).map lowerCase)).mpr (cstr_map_lowerCase name)
    unfold fatCmpDirent at hcmp
    rw [decide_eq_true_eq, hattr] at hcmp
    exact hcmp.2.2.1
  · intro hfits
    have hfree : e.byte 0 ≠ direntryFree := by
      rw [ne_eq, byte_zero_eq_iff h (by decide) (by decide) (.inl (by decide))]
      intro hzero
      obtain ⟨l, hl⟩ := List.head?_eq_some_iff.mp hzero
      apply zero_not_mem_cstr name
      rw [hl]
      exact List.mem_cons_self
    have hnot : e.byte 0 ≠ direntryDeleted := fun hdel => hfits.first (hdeleted.mp hdel)
    have hshow := hshown.mpr hfits.plain
    refine ⟨⟨hfree, hnot⟩, hshow, fun comp => ?_⟩
    unfold fatCmpDirent
    rw [decide_eq_true_eq, hshow, cstr_map_lowerCase, hattr]
    exact ⟨fun hcmp => hcmp.2.2.2, fun hcomp => ⟨hfree, hnot, hfits.attributes, hcomp⟩⟩

/-- Names and their entries fit together exactly if both names are plain, neither begins with the
mark of a deleted entry, and they do not differ in a letter behind a slash alone. -/
theorem names_ok_iff (h : fatASCIIZToDirEntry charSigned dirent name = some e)
    (h' : fatASCIIZToDirEntry charSigned dirent' name' = some e') :
    NamesOk e e' name name' ↔ NamesFit dirent dirent' name name' := by
  obtain ⟨hname, hext, -⟩ := fatASCIIZToDirEntry_some h
  obtain ⟨hname', hext', -⟩ := fatASCIIZToDirEntry_some h'
  have hsame : Plain (cstr name) → Plain (cstr name') →
      ((e.name = e'.name ∧ e.extension = e'.extension) ↔
        (cstr name).map lowerCase = (cstr name').map lowerCase ∧
          slashTail (cstr name) = slashTail (cstr name')) := by
    intro hp hp'
    rw [hname, hname', hext, hext', ← dosForm_eq_iff]
    constructor
    · rintro ⟨hn, he⟩
      exact ((plain_dosForm _).mpr hp).fields_inj ((plain_dosForm _).mpr hp') hn he
    · intro heq
      rw [heq]
      exact ⟨rfl, rfl⟩
  constructor
  · intro hok
    have hfits := (nameOk_iff h).mp hok.left
    have hfits' := (nameOk_iff h').mp hok.right
    refine ⟨hfits, hfits', fun heq => ?_⟩
    exact ((hsame hfits.plain hfits'.plain).mp (hok.same.mpr heq)).2
  · intro hfit
    refine ⟨(nameOk_iff h).mpr hfit.left, (nameOk_iff h').mpr hfit.right, ?_⟩
    rw [hsame hfit.left.plain hfit.right.plain]
    exact ⟨fun hboth => hboth.1, fun heq => ⟨heq, hfit.slash heq⟩⟩

end Entries

/-- The names `a.b` and `A.B`. -/
theorem names_ok_iff_sample : ∃ e e', fatASCIIZToDirEntry false .zeroed [97, 46, 98] = some e ∧
    fatASCIIZToDirEntry false .zeroed [65, 46, 66] = some e' ∧
    NamesOk e e' [97, 46, 98] [65, 46, 66] := by
  have h : fatASCIIZToDirEntry false .zeroed [97, 46, 98] = some _ := rfl
  have h' : fatASCIIZToDirEntry false .zeroed [65, 46, 66] = some _ := rfl
  have hplain : Plain (cstr [97, 46, 98]) :=
    ⟨by decide, by decide, fun e he => by cases he; decide⟩
  have hplain' : Plain (cstr [65, 46, 66]) :=
    ⟨by decide, by decide, fun e he => by cases he; decide⟩
  exact ⟨_, _, h, h', (names_ok_iff h h').mpr
    ⟨⟨hplain, by decide, by decide⟩, ⟨hplain', by decide, by decide⟩, fun _ => by decide⟩⟩

/-- The entry of `a.` shows `a`. -/
theorem names_dot : ∃ e, fatASCIIZToDirEntry false .zeroed [97, 46] = some e ∧
    ¬ NamesOk e e [97, 46] [97, 46] := by
  have h : fatASCIIZToDirEntry false .zeroed [97, 46] = some _ := rfl
  exact ⟨_, h, fun hok => absurd hok.left.shown (by decide)⟩

end Cheviot.Fatfs
