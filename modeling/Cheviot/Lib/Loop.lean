import Mathlib.Logic.Relation

/-!
# Loops and the states they go through

A loop is a step function that goes on in another state or leaves with a result.
`run` is the loop with a bound on its rounds, `visited` the states of these
rounds, `Comes` the states without a bound.

* `same_iff` — two loops go through the same states to the same result exactly
  when their steps agree on every state one of them comes to.
* `comes_of_mem`, `mem_of_comes` — the states a loop goes through and those it
  comes to.
* `done_of_run`, `run_of_comes` — its result is that of the state it leaves in.
* `run_good_iff` — it ends well exactly when each state it comes to leaves well or makes
  the measure smaller.

A loop may stay in one place for ever, so `same_iff` asks for a measure that gets
smaller, or steps that agree from there on.
-/

namespace Cheviot.Loop

variable {σ β : Type}

/-- At most `fuel` rounds from state `s`; `stuck` where these are not enough. -/
def run (stuck : β) (step : σ → σ ⊕ β) : Nat → σ → β
  | 0, _ => stuck
  | fuel + 1, s =>
    match step s with
    | .inl t => run stuck step fuel t
    | .inr r => r

/-- The states at the start of these rounds. -/
def visited (step : σ → σ ⊕ β) : Nat → σ → List σ
  | 0, _ => []
  | fuel + 1, s =>
    s :: match step s with
    | .inl t => visited step fuel t
    | .inr _ => []

/-- From `s` the loop comes to `t`. -/
abbrev Comes (step : σ → σ ⊕ β) : σ → σ → Prop :=
  Relation.ReflTransGen fun s t => step s = .inl t

section Loops

variable {f g : σ → σ ⊕ β} {stuck : β} {μ : σ → Nat} {n : Nat} {s t : σ} {r : β}

theorem run_next (h : f s = .inl t) : run stuck f (n + 1) s = run stuck f n t := by
  rw [run, h]

theorem run_done (h : f s = .inr r) : run stuck f (n + 1) s = r := by
  rw [run, h]

theorem visited_next (h : f s = .inl t) : visited f (n + 1) s = s :: visited f n t := by
  rw [visited, h]

theorem visited_done (h : f s = .inr r) : visited f (n + 1) s = [s] := by
  rw [visited, h]

/-- The first state of a loop with rounds left. -/
theorem head_visited (hn : 0 < n) (s : σ) : (visited f n s).head? = some s := by
  match n, hn with
  | n + 1, _ => rfl

theorem visited_ne_nil (hn : 0 < n) (s : σ) : visited f n s ≠ [] := by
  intro h
  have hhead := head_visited (f := f) hn s
  rw [h] at hhead
  cases hhead

/-- A state that is not the first one is come to by way of the second one. -/
theorem Comes.of_next {u : σ} (h : Comes f s u) (hst : f s = .inl t) : u = s ∨ Comes f t u := by
  rcases h.cases_head with rfl | ⟨t', ht', hu⟩
  · exact .inl rfl
  · rw [hst] at ht'
    cases ht'
    exact .inr hu

theorem Comes.of_done {u : σ} (h : Comes f s u) (hs : f s = .inr r) : u = s := by
  rcases h.cases_head with rfl | ⟨t', ht', -⟩
  · rfl
  · rw [hs] at ht'
    cases ht'

theorem visited_congr (h : ∀ t, Comes f s t → f t = g t) :
    ∀ n, visited f n s = visited g n s ∧ run stuck f n s = run stuck g n s := by
  intro n
  induction n generalizing s with
  | zero => exact ⟨rfl, rfl⟩
  | succ n ih =>
    have hs := h s .refl
    cases hf : f s with
    | inr r =>
      rw [hf] at hs
      rw [visited_done hf, visited_done hs.symm, run_done hf, run_done hs.symm]
      exact ⟨rfl, rfl⟩
    | inl t =>
      have ht := ih fun u hu => h u (.head hf hu)
      rw [hf] at hs
      rw [visited_next hf, visited_next hs.symm, run_next hf, run_next hs.symm, ht.1, ht.2]
      exact ⟨rfl, rfl⟩

/-- The two loops go through the same states and leave with the same result, where
the steps of either make `μ` smaller or the two stay together from there on. -/
theorem same_iff (hf : ∀ s t, f s = .inl t → μ t < μ s ∨ ∀ u, Comes f s u → f u = g u)
    (hg : ∀ s t, g s = .inl t → μ t < μ s ∨ f s = g s) (hn : μ s < n) :
    visited f n s = visited g n s ∧ run stuck f n s = run stuck g n s ↔
      ∀ t, Comes f s t → f t = g t := by
  refine ⟨?_, fun h => visited_congr h n⟩
  induction n generalizing s with
  | zero => exact absurd hn (Nat.not_lt_zero _)
  | succ n ih =>
    intro h u hu
    obtain ⟨hv, hr⟩ := h
    cases hfs : f s with
    -- the first loop leaves here, and so does the second
    | inr r =>
      rw [hu.of_done hfs, hfs]
      cases hgs : g s with
      | inr r' =>
        rw [run_done hfs, run_done hgs] at hr
        rw [hr]
      | inl t' =>
        rcases hg s t' hgs with hlt | heq
        · rw [visited_done hfs, visited_next hgs, List.cons.injEq] at hv
          exact absurd hv.2.symm (visited_ne_nil (by omega) t')
        · rw [← hfs, heq, hgs]
    | inl t =>
      rcases hf s t hfs with hlt | hall
      · cases hgs : g s with
        | inr r' =>
          rw [visited_next hfs, visited_done hgs, List.cons.injEq] at hv
          exact absurd hv.2 (visited_ne_nil (by omega) t)
        | inl t' =>
          rw [visited_next hfs, visited_next hgs, List.cons.injEq] at hv
          -- both go on, to the state that is next on both lists
          have hhead : some t = some t' := by
            rw [← head_visited (f := f) (show 0 < n by omega) t, hv.2, head_visited (by omega)]
          cases hhead
          rw [run_next hfs, run_next hgs] at hr
          rcases hu.of_next hfs with rfl | hu
          · rw [hfs, hgs]
          · exact ih (by omega) ⟨hv.2, hr⟩ u hu
      · exact hall u hu

/-- A state that the loop goes through is one that it comes to. -/
theorem comes_of_mem (h : t ∈ visited f n s) : Comes f s t := by
  induction n generalizing s with
  | zero => exact absurd h (List.not_mem_nil)
  | succ n ih =>
    cases hfs : f s with
    | inr r =>
      rw [visited_done hfs, List.mem_singleton] at h
      rw [h]
    | inl u =>
      rw [visited_next hfs, List.mem_cons] at h
      rcases h with rfl | h
      · exact .refl
      · exact .head hfs (ih h)

/-- A state that the loop comes to is one that it goes through, where every step
makes `μ` smaller. -/
theorem mem_of_comes (hf : ∀ s t, f s = .inl t → μ t < μ s) (hn : μ s < n) (h : Comes f s t) :
    t ∈ visited f n s := by
  induction n generalizing s with
  | zero => exact absurd hn (Nat.not_lt_zero _)
  | succ n ih =>
    cases hfs : f s with
    | inr r =>
      rw [visited_done hfs, h.of_done hfs]
      exact List.mem_singleton_self s
    | inl u =>
      have hlt := hf s u hfs
      rw [visited_next hfs]
      rcases h.of_next hfs with rfl | h
      · exact List.mem_cons_self
      · exact List.mem_cons_of_mem s (ih (by omega) h)

/-- A result that the loop leaves with is that of a state it comes to. -/
theorem done_of_run (h : run stuck f n s = r) (hr : r ≠ stuck) : ∃ t, Comes f s t ∧ f t = .inr r := by
  induction n generalizing s with
  | zero => exact absurd h.symm hr
  | succ n ih =>
    cases hfs : f s with
    | inr r' =>
      rw [run_done hfs] at h
      rw [h] at hfs
      exact ⟨s, .refl, hfs⟩
    | inl u =>
      rw [run_next hfs] at h
      obtain ⟨t, ht, hdone⟩ := ih h
      exact ⟨t, .head hfs ht, hdone⟩

/-- The loop leaves where it comes to a state to leave in, and its steps make `μ`
smaller or never leave. -/
theorem run_of_comes
    (hf : ∀ s t, f s = .inl t → μ t < μ s ∨ ∀ u, Comes f s u → ∃ w, f u = .inl w)
    (hn : μ s < n) (h : Comes f s t) (ht : f t = .inr r) : run stuck f n s = r := by
  induction n generalizing s with
  | zero => exact absurd hn (Nat.not_lt_zero _)
  | succ n ih =>
    cases hfs : f s with
    | inr r' =>
      rw [h.of_done hfs, hfs, Sum.inr.injEq] at ht
      rw [run_done hfs, ht]
    | inl u =>
      rw [run_next hfs]
      rcases hf s u hfs with hlt | hall
      · rcases h.of_next hfs with rfl | h
        · rw [hfs] at ht
          cases ht
        · exact ih (by omega) h
      · obtain ⟨w, hw⟩ := hall t h
        rw [hw] at ht
        cases ht

/-- A state to leave in is the last one that the loop comes to. -/
theorem Comes.done (h : Comes f s t) (ht : f t = .inr r) {u : σ} (hu : Comes f s u) :
    Comes f u t := by
  have hright : Relator.RightUnique fun s t => f s = .inl t := by
    intro a b c hb hc
    rw [hb] at hc
    exact Sum.inl.inj hc
  rcases Relation.ReflTransGen.total_of_right_unique hright hu h with hut | htu
  · exact hut
  · have heq : u = t := Comes.of_done htu ht
    rw [heq]

/-- A loop with steps that make `μ` smaller leaves. -/
theorem done_of_less (hf : ∀ t, Comes f s t → ∀ u, f t = .inl u → μ u < μ t) (hn : μ s < n) :
    ∃ t, Comes f s t ∧ f t = .inr (run stuck f n s) := by
  induction n generalizing s with
  | zero => exact absurd hn (Nat.not_lt_zero _)
  | succ n ih =>
    cases hfs : f s with
    | inr r =>
      rw [run_done hfs]
      exact ⟨s, .refl, hfs⟩
    | inl u =>
      have hlt := hf s .refl u hfs
      obtain ⟨t, ht, hdone⟩ := ih (fun t ht => hf t (.head hfs ht)) (by omega : μ u < n)
      rw [run_next hfs]
      exact ⟨t, .head hfs ht, hdone⟩

/-- A loop ends well if and only if no state that it comes to leaves otherwise or is one
to stay in, where its steps make `μ` smaller or never leave. -/
theorem run_good_iff {Good : β → Prop} (hstuck : ¬ Good stuck)
    (hf : ∀ s t, f s = .inl t → μ t < μ s ∨ ∀ u, Comes f s u → ∃ w, f u = .inl w)
    (hn : μ s < n) :
    Good (run stuck f n s) ↔ ∀ t, Comes f s t →
      (∀ r, f t = .inr r → Good r) ∧ ∀ u, f t = .inl u → μ u < μ t := by
  constructor
  · intro hgood t ht
    have hne : run stuck f n s ≠ stuck := fun h => hstuck (h ▸ hgood)
    obtain ⟨d, hd, hdone⟩ := done_of_run (r := run stuck f n s) rfl hne
    have htd := hd.done hdone ht
    refine ⟨fun r hr => ?_, fun u hu => ?_⟩
    · rw [htd.of_done hr, hr] at hdone
      rw [Sum.inr.inj hdone]
      exact hgood
    · rcases hf t u hu with hlt | hall
      · exact hlt
      · obtain ⟨w, hw⟩ := hall d htd
        rw [hw] at hdone
        cases hdone
  · intro h
    have hdone : ∃ t, Comes f s t ∧ f t = .inr (run stuck f n s) :=
      done_of_less (fun t ht => (h t ht).2) hn
    obtain ⟨t, ht, hdone⟩ := hdone
    exact (h t ht).1 _ hdone

end Loops

end Cheviot.Loop
