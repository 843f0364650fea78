import Mathlib.Data.List.Basic

/-!
# Records laid end to end

A row is a list of records, each of which knows where it begins and how long it
is, that fill a range without a gap (`Row`). A walk over a row that may stop at a
record, and is given the record before, is `pick`.

* `row_append`, `Row.cut`, `Row.join` — a row is made of rows, so a part of it can be
  exchanged for records that fill the same range.
* `Row.inj`, `Row.apart`, `Row.cover` — every place of the range is in one record.
* `row_unique` — a row is determined by what is stored in its range.
* `pick_eq_some`, `pick_eq_none` — where a walk stops.
-/

namespace Cheviot.Rows

section Rows

variable {ε : Type} {off len : ε → Nat}

/-- The records `es` fill the range from `lo` to `hi`. -/
def Row (off len : ε → Nat) : Nat → Nat → List ε → Prop
  | lo, hi, [] => lo = hi
  | lo, hi, e :: es => off e = lo ∧ 0 < len e ∧ Row off len (lo + len e) hi es

theorem row_append {lo hi : Nat} {es es' : List ε} :
    Row off len lo hi (es ++ es') ↔ ∃ mid, Row off len lo mid es ∧ Row off len mid hi es' := by
  induction es generalizing lo with
  | nil =>
    constructor
    · intro h
      exact ⟨lo, rfl, h⟩
    · rintro ⟨mid, rfl, h⟩
      exact h
  | cons e es ih =>
    constructor
    · rintro ⟨hoff, hpos, h⟩
      obtain ⟨mid, h1, h2⟩ := ih.mp h
      exact ⟨mid, ⟨hoff, hpos, h1⟩, h2⟩
    · rintro ⟨mid, ⟨hoff, hpos, h1⟩, h2⟩
      exact ⟨hoff, hpos, ih.mpr ⟨mid, h1, h2⟩⟩

theorem Row.le {lo hi : Nat} {es : List ε} (h : Row off len lo hi es) : lo ≤ hi := by
  induction es generalizing lo with
  | nil => exact Nat.le_of_eq h
  | cons e es ih =>
    have := ih h.2.2
    omega

/-- A record lies in the range. -/
theorem Row.bounds {lo hi : Nat} {es : List ε} (h : Row off len lo hi es) {e : ε} (he : e ∈ es) :
    lo ≤ off e ∧ 0 < len e ∧ off e + len e ≤ hi := by
  induction es generalizing lo with
  | nil => cases he
  | cons a es ih =>
    obtain ⟨hoff, hpos, h⟩ := h
    have hle := h.le
    rcases List.mem_cons.mp he with rfl | he
    · omega
    · have := ih h he
      omega

/-- The records in front of one and those behind it. -/
theorem Row.cut {lo hi : Nat} {pre post : List ε} {e : ε}
    (h : Row off len lo hi (pre ++ e :: post)) :
    Row off len lo (off e) pre ∧ 0 < len e ∧ Row off len (off e + len e) hi post := by
  obtain ⟨mid, h1, hoff, hpos, h2⟩ := row_append.mp h
  rw [hoff]
  exact ⟨h1, hpos, h2⟩

/-- Three rows, one right behind the other, are one. -/
theorem Row.join {lo hi a b : Nat} {pre mid post : List ε} (hpre : Row off len lo a pre)
    (hmid : Row off len a b mid) (hpost : Row off len b hi post) :
    Row off len lo hi (pre ++ (mid ++ post)) :=
  row_append.mpr ⟨a, hpre, row_append.mpr ⟨b, hmid, hpost⟩⟩

/-- Two records are the same or have no place in common. -/
theorem Row.apart {lo hi : Nat} {es : List ε} (h : Row off len lo hi es) {e e' : ε} (he : e ∈ es)
    (he' : e' ∈ es) : e = e' ∨ off e + len e ≤ off e' ∨ off e' + len e' ≤ off e := by
  induction es generalizing lo with
  | nil => cases he
  | cons a es ih =>
    obtain ⟨hoff, hpos, h⟩ := h
    rcases List.mem_cons.mp he with heq | hmem
    · rcases List.mem_cons.mp he' with heq' | hmem'
      · exact .inl (heq.trans heq'.symm)
      · have := h.bounds hmem'
        rw [heq]
        omega
    · rcases List.mem_cons.mp he' with heq' | hmem'
      · have := h.bounds hmem
        rw [heq']
        omega
      · exact ih h hmem hmem'

theorem Row.inj {lo hi : Nat} {es : List ε} (h : Row off len lo hi es) {e e' : ε} (he : e ∈ es)
    (he' : e' ∈ es) (hoff : off e = off e') : e = e' := by
  rcases h.apart he he' with heq | hlt
  · exact heq
  · have h1 := h.bounds he
    have h2 := h.bounds he'
    omega

/-- No record is there twice. -/
theorem Row.nodup {lo hi : Nat} {es : List ε} (h : Row off len lo hi es) : es.Nodup := by
  induction es generalizing lo with
  | nil => exact List.nodup_nil
  | cons a es ih =>
    obtain ⟨hoff, hpos, h⟩ := h
    refine List.nodup_cons.mpr ⟨fun ha => ?_, ih h⟩
    have := h.bounds ha
    omega

/-- Every place of the range is in a record. -/
theorem Row.cover {lo hi : Nat} {es : List ε} (h : Row off len lo hi es) {p : Nat} (hlo : lo ≤ p)
    (hhi : p < hi) : ∃ e ∈ es, off e ≤ p ∧ p < off e + len e := by
  induction es generalizing lo with
  | nil =>
    have hlohi : lo = hi := h
    omega
  | cons a es ih =>
    obtain ⟨hoff, hpos, h⟩ := h
    rcases Nat.lt_or_ge p (lo + len a) with hp | hp
    · exact ⟨a, List.mem_cons_self, by omega, by omega⟩
    · obtain ⟨e, he, hin⟩ := ih h hp
      exact ⟨e, List.mem_cons_of_mem _ he, hin⟩

/-- Two rows of one range are the same, if what is stored at a place determines the
record there. -/
theorem row_unique {P : ε → Prop} (hP : ∀ e e', P e → P e' → off e = off e' → e = e')
    {lo hi : Nat} {es es' : List ε} (h : Row off len lo hi es) (h' : Row off len lo hi es')
    (hes : ∀ e ∈ es, P e) (hes' : ∀ e ∈ es', P e) : es = es' := by
  induction es generalizing lo es' with
  | nil =>
    cases es' with
    | nil => rfl
    | cons e' es' =>
      have hlohi : lo = hi := h
      have := h'.bounds List.mem_cons_self
      omega
  | cons e es ih =>
    cases es' with
    | nil =>
      have hlohi : lo = hi := h'
      have := h.bounds List.mem_cons_self
      omega
    | cons e' es' =>
      have heq : e = e' := hP e e' (hes e List.mem_cons_self) (hes' e' List.mem_cons_self)
        (h.1.trans h'.1.symm)
      subst heq
      rw [ih h.2.2 h'.2.2 (fun x hx => hes x (List.mem_cons_of_mem _ hx))
        fun x hx => hes' x (List.mem_cons_of_mem _ hx)]

end Rows

/-! ## Walks -/

section Walks

variable {ε α : Type} {g : Option ε → ε → Option α}

/-- The first result of `g` on a record and the one before it. -/
def pick (g : Option ε → ε → Option α) : Option ε → List ε → Option α
  | _, [] => none
  | prev, e :: es =>
    match g prev e with
    | some a => some a
    | none => pick g (some e) es

theorem pick_stop {prev : Option ε} {e : ε} {a : α} (h : g prev e = some a) (es : List ε) :
    pick g prev (e :: es) = some a := by
  rw [pick, h]

theorem pick_pass {prev : Option ε} {e : ε} (h : g prev e = none) (es : List ε) :
    pick g prev (e :: es) = pick g (some e) es := by
  rw [pick, h]

/-- The record in front of what follows `pre`. -/
def before (prev : Option ε) : List ε → Option ε
  | [] => prev
  | e :: pre => before (some e) pre

@[simp] theorem before_concat (prev : Option ε) (pre : List ε) (e : ε) :
    before prev (pre ++ [e]) = some e := by
  induction pre generalizing prev with
  | nil => rfl
  | cons a pre ih => exact ih (some a)

/-- A walk stops at the first record that has a result. -/
theorem pick_eq_some {prev : Option ε} {es : List ε} {a : α} (h : pick g prev es = some a) :
    ∃ pre e post, es = pre ++ e :: post ∧ g (before prev pre) e = some a ∧
      pick g prev pre = none := by
  induction es generalizing prev with
  | nil => cases h
  | cons e es ih =>
    cases hg : g prev e with
    | some a' =>
      rw [pick_stop hg] at h
      cases h
      exact ⟨[], e, es, rfl, hg, rfl⟩
    | none =>
      rw [pick_pass hg] at h
      obtain ⟨pre, e', post, rfl, hstop, hpre⟩ := ih h
      exact ⟨e :: pre, e', post, rfl, hstop, (pick_pass hg pre).trans hpre⟩

/-- A walk that does not look back and ends without a result has passed every record. -/
theorem pick_eq_none {g : ε → Option α} {prev : Option ε} {es : List ε} :
    pick (fun _ => g) prev es = none ↔ ∀ e ∈ es, g e = none := by
  induction es generalizing prev with
  | nil => exact ⟨fun _ _ h => (nomatch h), fun _ => rfl⟩
  | cons e es ih =>
    rw [List.forall_mem_cons]
    cases hg : g e with
    | some a =>
      rw [pick_stop hg]
      exact ⟨fun h => (nomatch h), fun h => (nomatch h.1)⟩
    | none =>
      rw [pick_pass hg, ih]
      exact ⟨fun h => ⟨rfl, h⟩, fun h => h.2⟩

/-- Where a walk stops depends on what it has a result for only. -/
theorem pick_isSome {α' : Type} {g' : Option ε → ε → Option α'}
    (h : ∀ prev e, (g prev e).isSome = (g' prev e).isSome) {prev : Option ε} {es : List ε} :
    (pick g prev es).isSome = (pick g' prev es).isSome := by
  induction es generalizing prev with
  | nil => rfl
  | cons e es ih =>
    have he := h prev e
    cases hg : g prev e with
    | some a =>
      rw [hg] at he
      obtain ⟨a', hg'⟩ := Option.isSome_iff_exists.mp he.symm
      rw [pick_stop hg, pick_stop hg']
      rfl
    | none =>
      rw [hg] at he
      rw [pick_pass hg, pick_pass (Option.isNone_iff_eq_none.mp (by simpa using he.symm))]
      exact ih

end Walks

end Cheviot.Rows
