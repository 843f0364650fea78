import Mathlib.Control.Monad.Writer
import Mathlib.Data.List.Count

/-!
# Computations with a log

A computation that may fail, with the calls it makes noted. Some of the calls take a
resource and some give one back; a call may also be known to leave one behind.

* `value` — the computation without the log, and a rule for each way to build it.
* `Moves` — the resources held before a computation and behind it, with the rule of sequence.
* `Moves.balanced_iff` — when every resource is given back as often as it was taken.
-/

namespace Cheviot.Log

variable {κ ε α β γ δ ρ : Type}

/-- A computation that may fail, with a log of its calls. -/
abbrev Logged (κ ε : Type) := WriterT (List κ) (Except ε)

/-- A call, noted in the log. -/
def call (k : κ) : Logged κ ε Unit := tell [k]

/-! ## Without the log -/

/-- The computation without its log. -/
def value (x : Logged κ ε α) : Except ε α := Prod.fst <$> x.run

theorem value_lift (x : Except ε α) : value (liftM x : Logged κ ε α) = x := by
  cases x <;> rfl

/-- A sequence, with less in the value of its first part and in its own. -/
theorem map_value_bind {x : Logged κ ε α} {f : α → Logged κ ε β} {y : Except ε γ} (h : α → γ)
    (k : β → δ) {g : γ → Except ε δ} (hx : h <$> value x = y)
    (hf : ∀ a, k <$> value (f a) = g (h a)) : k <$> value (x >>= f) = y >>= g := by
  subst hx
  change k <$> Prod.fst <$> ((x.run : Except ε _) >>= fun p => _) = (h <$> Prod.fst <$> x.run) >>= g
  cases x.run with
  | error e => rfl
  | ok p =>
    change k <$> Prod.fst <$> ((fun q => (q.1, p.2 ++ q.2)) <$> (f p.1).run) = g (h p.1)
    rw [← hf p.1, value]
    cases (f p.1).run <;> rfl

theorem value_bind_map {x : Logged κ ε α} {f : α → Logged κ ε β} {y : Except ε γ} (h : α → γ)
    {g : γ → Except ε β} (hx : h <$> value x = y) (hf : ∀ a, value (f a) = g (h a)) :
    value (x >>= f) = y >>= g := by
  rw [← id_map (value (x >>= f))]
  apply map_value_bind h id hx
  intro a
  rw [id_map, hf]

theorem value_bind {x : Logged κ ε α} {f : α → Logged κ ε β} {y : Except ε α}
    {g : α → Except ε β} (hx : value x = y) (hf : ∀ a, value (f a) = g a) :
    value (x >>= f) = y >>= g := by
  apply value_bind_map id _ hf
  rw [hx]
  exact id_map y

/-- A sequence whose first part has the value `a`. -/
theorem value_bind_ok {x : Logged κ ε α} {f : α → Logged κ ε β} {a : α} {y : Except ε β}
    (hx : value x = .ok a) (hf : value (f a) = y) : value (x >>= f) = y := by
  rw [value_bind hx fun _ => rfl]
  exact hf

theorem value_call {k : κ} {f : Unit → Logged κ ε β} {y : Except ε β} (h : value (f ()) = y) :
    value (call k >>= f) = y := value_bind_ok rfl h

theorem value_of_run {x : Logged κ ε α} {a : α} {log : List κ} (h : x.run = .ok (a, log)) :
    value x = .ok a := by
  unfold value
  rw [h]
  rfl

/-- The parts of a sequence that has ended. -/
theorem run_bind_ok {x : Logged κ ε α} {f : α → Logged κ ε β} {b : β} {log : List κ}
    (h : (x >>= f).run = .ok (b, log)) : ∃ a log₁ log₂, x.run = .ok (a, log₁) ∧
      (f a).run = .ok (b, log₂) ∧ log = log₁ ++ log₂ := by
  change ((x.run : Except ε _) >>= fun p => _) = _ at h
  cases hx : x.run with
  | error e =>
    rw [hx] at h
    cases h
  | ok p =>
    rw [hx] at h
    change (fun q => (q.1, p.2 ++ q.2)) <$> (f p.1).run = _ at h
    cases hf : (f p.1).run with
    | error e =>
      rw [hf] at h
      cases h
    | ok q =>
      rw [hf] at h
      cases h
      exact ⟨p.1, p.2, q.2, rfl, hf, rfl⟩

/-! ## Resources -/

/-- What the calls do with resources: the one a call takes, the one it gives back, and
those that are left behind where it is made. -/
structure Account (κ ρ : Type) where
  got : κ → Option ρ
  put : κ → Option ρ
  lost : κ → List ρ

namespace Account

variable (acc : Account κ ρ)

/-- The resources taken. -/
def gets (log : List κ) : List ρ := log.filterMap acc.got

/-- The resources given back. -/
def puts (log : List κ) : List ρ := log.filterMap acc.put

/-- The resources left behind. -/
def losses (log : List κ) : List ρ := log.flatMap acc.lost

end Account

variable [DecidableEq ρ] {acc : Account κ ρ} {xs : List ρ} {ys : α → List ρ} {zs : β → List ρ}

/-- Whenever the computation has ended, the resources held before it and those it has taken
are those it has given back, those it holds then, and those it has left behind. -/
def Moves (acc : Account κ ρ) (xs : List ρ) (x : Logged κ ε α) (ys : α → List ρ) : Prop :=
  ∀ a log, x.run = .ok (a, log) → ∀ r, xs.count r + (acc.gets log).count r =
    (acc.puts log).count r + (ys a).count r + (acc.losses log).count r

theorem Moves.pure {a : α} (h : xs = ys a) : Moves acc xs (pure a : Logged κ ε α) ys := by
  rintro _ _ ⟨⟩ r
  rw [h]
  exact (Nat.add_comm _ _).trans rfl

theorem Moves.throw (e : ε) : Moves acc xs (throw e : Logged κ ε α) ys := by
  rintro _ _ ⟨⟩

/-- A computation without calls. -/
theorem Moves.lift {x : Except ε α} {f : α → Logged κ ε β}
    (h : ∀ a, x = .ok a → Moves acc xs (f a) zs) : Moves acc xs (liftM x >>= f) zs := by
  intro b log hrun
  cases x with
  | error e => cases hrun
  | ok a =>
    obtain ⟨_, _, log₂, ⟨⟩, hf, rfl⟩ := run_bind_ok hrun
    exact h a rfl b _ hf

theorem Moves.bind {x : Logged κ ε α} {f : α → Logged κ ε β} (hx : Moves acc xs x ys)
    (hf : ∀ a, Moves acc (ys a) (f a) zs) : Moves acc xs (x >>= f) zs := by
  intro b log hrun r
  obtain ⟨a, log₁, log₂, hrun₁, hrun₂, rfl⟩ := run_bind_ok hrun
  have h₁ := hx a log₁ hrun₁ r
  have h₂ := hf a b log₂ hrun₂ r
  unfold Account.gets Account.puts Account.losses at *
  rw [List.filterMap_append, List.filterMap_append, List.flatMap_append, List.count_append,
    List.count_append, List.count_append]
  omega

/-- A call with what it does. -/
theorem Moves.call {k : κ} {f : Unit → Logged κ ε β} {ws : List ρ} (h : Moves acc ws (f ()) zs)
    (hk : ∀ r, xs.count r + (acc.gets [k]).count r =
      (acc.puts [k]).count r + ws.count r + (acc.losses [k]).count r) :
    Moves acc xs (Log.call k >>= f) zs := by
  have hcall : Moves acc xs (Log.call k : Logged κ ε Unit) fun _ => ws := by
    rintro _ _ ⟨⟩
    exact hk
  exact hcall.bind fun _ => h

/-- Taking a resource. -/
theorem Moves.get {k : κ} {x : ρ} {f : Unit → Logged κ ε β} (hgot : acc.got k = some x)
    (hput : acc.put k = none) (hlost : acc.lost k = []) (h : Moves acc (x :: xs) (f ()) zs) :
    Moves acc xs (Log.call k >>= f) zs := by
  refine h.call fun r => ?_
  simp only [Account.gets, Account.puts, Account.losses, List.filterMap_cons, hgot, hput, hlost,
    List.filterMap_nil, List.flatMap_cons, List.flatMap_nil, List.append_nil, List.count_cons,
    List.count_nil]
  omega

/-- Giving a resource back. -/
theorem Moves.give {k : κ} {x : ρ} {f : Unit → Logged κ ε β} (hgot : acc.got k = none)
    (hput : acc.put k = some x) (hlost : acc.lost k = []) (h : Moves acc xs (f ()) zs) :
    Moves acc (x :: xs) (Log.call k >>= f) zs := by
  refine h.call fun r => ?_
  simp only [Account.gets, Account.puts, Account.losses, List.filterMap_cons, hgot, hput, hlost,
    List.filterMap_nil, List.flatMap_cons, List.flatMap_nil, List.append_nil, List.count_cons,
    List.count_nil]
  omega

/-- What a computation is about to leave behind may be noted ahead of it. -/
theorem Moves.note {k : κ} {x : Logged κ ε β} {ys : β → List ρ} (hgot : acc.got k = none)
    (hput : acc.put k = none) (h : Moves acc xs x ys)
    (hlost : ∀ b, value x = .ok b → ∀ r, (ys b).count r = (acc.lost k).count r + (zs b).count r) :
    Moves acc xs (Log.call k >>= fun _ => x) zs := by
  intro b log hrun r
  obtain ⟨_, _, log₂, ⟨⟩, hrun₂, rfl⟩ := run_bind_ok hrun
  have h₂ := h b log₂ hrun₂ r
  have hr := hlost b (value_of_run hrun₂) r
  simp only [Account.gets, Account.puts, Account.losses, List.cons_append, List.nil_append,
    List.filterMap_cons, hgot, hput, List.flatMap_cons, List.count_append] at *
  omega

/-- Every resource is given back as often as it was taken, but for those that are still
held, if and only if no call has left any behind. -/
theorem Moves.balanced_iff {x : Logged κ ε α} {a : α} {log : List κ} (h : Moves acc [] x ys)
    (hrun : x.run = .ok (a, log)) :
    (∀ r, (acc.gets log).count r = (acc.puts log).count r + (ys a).count r) ↔
      ∀ k ∈ log, acc.lost k = [] := by
  have hcount := h a log hrun
  have hnone : (∀ r, (acc.gets log).count r = (acc.puts log).count r + (ys a).count r) ↔
      ∀ r, (acc.losses log).count r = 0 := by
    refine forall_congr' fun r => ?_
    have hr := hcount r
    rw [List.count_nil] at hr
    omega
  rw [hnone, ← List.flatMap_eq_nil_iff, ← List.eq_nil_iff_forall_not_mem.trans
    (forall_congr' fun r => List.count_eq_zero.symm)]
  rfl

end Cheviot.Log
