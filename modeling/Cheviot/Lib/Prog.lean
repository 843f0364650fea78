import Mathlib.Init

/-!
# Programs over operations

A `Prog` calls operations of some interface and goes on with their results. What
the operations do is left to a handler on a state; `Prog.run` runs a program with
one.

* `Prog.run_bind` — a sequence runs its parts one after the other.
* `Prog.run_simulates` — where two handlers agree along a relation of their
  states, every program agrees along it.
* `Prog.Meets` — what a program calls and returns, whatever its calls give back.
-/

namespace Cheviot

/-- A program with calls `o : Op` whose results are in `Res o`. -/
inductive Prog (Op : Type) (Res : Op → Type) (ε α : Type) where
  | done (a : α)
  | fail (e : ε)
  | call (o : Op) (k : Res o → Prog Op Res ε α)

namespace Prog

variable {Op : Type} {Res : Op → Type} {ε α β : Type}

/-- A program, and another one on its result. -/
def bind : Prog Op Res ε α → (α → Prog Op Res ε β) → Prog Op Res ε β
  | done a, f => f a
  | fail e, _ => fail e
  | call o k, f => call o fun r => bind (k r) f

instance : Monad (Prog Op Res ε) where
  pure := done
  bind := bind

/-- One call. -/
def op (o : Op) : Prog Op Res ε (Res o) := call o done

/-- What operations do to a state. -/
abbrev Handler (Op : Type) (Res : Op → Type) (ε σ : Type) :=
  (o : Op) → σ → Except ε (σ × Res o)

section Run

variable {σ : Type} (h : Handler Op Res ε σ)

/-- A program, with a handler for its calls. -/
def run : Prog Op Res ε α → σ → Except ε (σ × α)
  | done a, s => .ok (s, a)
  | fail e, _ => .error e
  | call o k, s => h o s >>= fun r => run (k r.2) r.1

@[simp] theorem run_pure (a : α) (s : σ) : run h (pure a : Prog Op Res ε α) s = .ok (s, a) := rfl

@[simp] theorem run_done (a : α) (s : σ) : run h (done a : Prog Op Res ε α) s = .ok (s, a) := rfl

@[simp] theorem run_fail (e : ε) (s : σ) : run h (fail e : Prog Op Res ε α) s = .error e := rfl

@[simp] theorem run_op (o : Op) (s : σ) : run h (op o) s = h o s := by
  show (h o s >>= fun r => .ok (r.1, r.2)) = h o s
  cases h o s <;> rfl

theorem run_bind (p : Prog Op Res ε α) (f : α → Prog Op Res ε β) : ∀ s : σ,
    run h (p >>= f) s = run h p s >>= fun r => run h (f r.2) r.1 := by
  induction p with
  | done a => exact fun _ => rfl
  | fail e => exact fun _ => rfl
  | call o k ih =>
    intro s
    show (h o s >>= fun r => run h (k r.2 >>= f) r.1) =
      (h o s >>= fun r => run h (k r.2) r.1) >>= fun r => run h (f r.2) r.1
    cases h o s with
    | error e => rfl
    | ok r => exact ih r.2 r.1

/-- Where the first part has ended, a sequence goes on with the second. -/
theorem run_bind_ok {p : Prog Op Res ε α} {s t : σ} {a : α} (hp : run h p s = .ok (t, a))
    (f : α → Prog Op Res ε β) : run h (p >>= f) s = run h (f a) t := by
  rw [run_bind, hp]
  rfl

/-- Where the first part has failed, so has the sequence. -/
theorem run_bind_error {p : Prog Op Res ε α} {s : σ} {e : ε} (hp : run h p s = .error e)
    (f : α → Prog Op Res ε β) : run h (p >>= f) s = .error e := by
  rw [run_bind, hp]
  rfl

/-- A sequence that has ended had a first part that did. -/
theorem ok_of_run_bind {p : Prog Op Res ε α} {f : α → Prog Op Res ε β} {s : σ} {r : σ × β}
    (hr : run h (p >>= f) s = .ok r) :
    ∃ t a, run h p s = .ok (t, a) ∧ run h (f a) t = .ok r := by
  rw [run_bind] at hr
  cases hp : run h p s with
  | error e =>
    rw [hp] at hr
    cases hr
  | ok x =>
    rw [hp] at hr
    exact ⟨x.1, x.2, rfl, hr⟩

end Run

/-! ## Simulation -/

section Simulation

variable {σ τ : Type} {h : Handler Op Res ε σ} {h' : Handler Op Res ε τ} {R : σ → τ → Prop}

/-- The outcomes `x` and `y` agree, in states that `R` relates. -/
def Simulates (R : σ → τ → Prop) (x : Except ε (σ × α)) : Except ε (τ × α) → Prop
  | .ok (t, a) => ∃ s, x = .ok (s, a) ∧ R s t
  | .error e => x = .error e

/-- Agreement, from the side of `x`. -/
theorem Simulates.of_ok {x : Except ε (σ × α)} {y : Except ε (τ × α)} (hxy : Simulates R x y)
    {s : σ} {a : α} (hx : x = .ok (s, a)) : ∃ t, y = .ok (t, a) ∧ R s t := by
  cases y with
  | error e =>
    have hxe : x = .error e := hxy
    rw [hx] at hxe
    cases hxe
  | ok r =>
    obtain ⟨s', hs', hst⟩ := (show ∃ s, x = .ok (s, r.2) ∧ R s r.1 from hxy)
    rw [hx] at hs'
    cases hs'
    exact ⟨r.1, rfl, hst⟩

/-- Programs agree where the operations do. -/
theorem run_simulates (hops : ∀ o s t, R s t → Simulates R (h o s) (h' o t))
    (p : Prog Op Res ε α) : ∀ {s : σ} {t : τ}, R s t → Simulates R (run h p s) (run h' p t) := by
  induction p with
  | done a => exact fun {s t} hst => ⟨s, rfl, hst⟩
  | fail e => exact fun _ => rfl
  | call o k ih =>
    intro s t hst
    have ho := hops o s t hst
    rw [run, run]
    cases hr : h' o t with
    | error e =>
      rw [hr] at ho
      have hx : h o s = .error e := ho
      rw [hx]
      rfl
    | ok r =>
      rw [hr] at ho
      obtain ⟨s', hs', hst'⟩ := ho
      rw [hs']
      exact ih r.2 hst'

end Simulation

/-! ## Calls and results -/

section Meets

variable {P : Op → Prop} {Q Q' : α → Prop}

/-- Every call of the program is one of `P`, and every result one of `Q`. -/
def Meets (P : Op → Prop) (Q : α → Prop) : Prog Op Res ε α → Prop
  | done a => Q a
  | fail _ => True
  | call o k => P o ∧ ∀ r, Meets P Q (k r)

theorem Meets.pure {a : α} (h : Q a) : Meets P Q (pure a : Prog Op Res ε α) := h

theorem Meets.fail (e : ε) : Meets P Q (fail e : Prog Op Res ε α) := trivial

theorem Meets.op {o : Op} {Q : Res o → Prop} (h : P o) (hres : ∀ r, Q r) :
    Meets P Q (op o : Prog Op Res ε (Res o)) :=
  ⟨h, hres⟩

/-- Of any program. -/
theorem Meets.any (p : Prog Op Res ε α) : Meets (fun _ => True) (fun _ => True) p := by
  induction p with
  | done a => exact trivial
  | fail e => exact trivial
  | call o k ih => exact ⟨trivial, ih⟩

theorem Meets.mono {p : Prog Op Res ε α} (h : Meets P Q p) (hQ : ∀ a, Q a → Q' a) :
    Meets P Q' p := by
  induction p with
  | done a => exact hQ a h
  | fail e => exact trivial
  | call o k ih => exact ⟨h.1, fun r => ih r (h.2 r)⟩

/-- More calls are allowed. -/
theorem Meets.weaken {P' : Op → Prop} {p : Prog Op Res ε α} (h : Meets P Q p)
    (hP : ∀ o, P o → P' o) : Meets P' Q p := by
  induction p with
  | done a => exact h
  | fail e => exact trivial
  | call o k ih => exact ⟨hP o h.1, fun r => ih r (h.2 r)⟩

/-- A sequence, by its parts. -/
theorem Meets.bind {p : Prog Op Res ε α} {f : α → Prog Op Res ε β} {Q : β → Prop}
    {Qp : α → Prop} (h : Meets P Qp p) (hf : ∀ a, Qp a → Meets P Q (f a)) :
    Meets P Q (p >>= f) := by
  induction p with
  | done a => exact hf a h
  | fail e => exact trivial
  | call o k ih => exact ⟨h.1, fun r => ih r (h.2 r)⟩

/-- A run ends in one of its results; it keeps what its calls keep. -/
theorem Meets.run {σ : Type} {h : Handler Op Res ε σ} {I : σ → Prop}
    (hI : ∀ o, P o → ∀ s, I s → ∀ t r, h o s = .ok (t, r) → I t) {p : Prog Op Res ε α}
    (hp : Meets P Q p) : ∀ {s t : σ} {a : α}, I s → Prog.run h p s = .ok (t, a) → I t ∧ Q a := by
  induction p with
  | done a =>
    intro s t b hs hr
    cases hr
    exact ⟨hs, hp⟩
  | fail e =>
    intro s t b hs hr
    cases hr
  | call o k ih =>
    intro s t b hs hr
    rw [Prog.run] at hr
    cases ho : h o s with
    | error e =>
      rw [ho] at hr
      cases hr
    | ok r =>
      rw [ho] at hr
      exact ih r.2 (hp.2 r.2) (hI o hp.1 s hs r.1 r.2 ho) hr

/-- The results alone. -/
theorem Meets.result {σ : Type} {h : Handler Op Res ε σ} {p : Prog Op Res ε α}
    (hp : Meets P Q p) {s t : σ} {a : α} (hr : Prog.run h p s = .ok (t, a)) : Q a :=
  (hp.run (fun _ _ _ _ _ _ _ => trivial) trivial hr : True ∧ Q a).2

end Meets

end Prog

end Cheviot
