import CodeAudit.Proofs.Lint.Forms
import CodeAudit.Proofs.Lint.Logic
import Mathlib.Data.List.Chain

/-!
Runs of a scan: the states in which its rounds begin, one after the other. A run that gets on with
each round is no longer than the text, and a run that always goes on never ends.
-/

namespace CodeAudit

variable {σ ρ : Type}

def Leads (round : σ → Scan (Round σ ρ)) (x y : σ) : Prop := round x = .ok (.again y)

def Lint.Leads (round : σ → Lint (Round σ ρ)) (x y : σ × Context) : Prop :=
  round x.1 x.2 = (.ok (.again y.1), y.2)

theorem Lint.Leads.unique {round : σ → Lint (Round σ ρ)} {x y z : σ × Context}
    (hy : Lint.Leads round x y) (hz : Lint.Leads round x z) : y = z := by
  obtain ⟨hround, hcontext⟩ := Prod.mk.inj (Eq.trans (Eq.symm hy) hz)
  exact Prod.ext (Round.again.inj (Except.ok.inj hround)) hcontext

/-- In the scan from `start` on, a round that is not the last finds something at place `q`, in the
given line, and the report is given on it. Each round looks at the first ink from `next` on. -/
def Lint.Gives (s : Text) (forms : List Form) (round : σ → Lint (Round σ ρ)) (next : σ → Int)
    (start : σ × Context) (q : Nat) (line : Int) (r : Report) : Prop :=
  ∃ x y found, Relation.ReflTransGen (Lint.Leads round) start x ∧ Lint.Leads round x y ∧
    s.nextInk (next x.1) = .ok q ∧
    (Form.first forms s q { x.2 with line }).1 = .ok (some found) ∧ r ∈ found.reports

theorem Lint.wp_rounds_reached {round : σ → Lint (Round σ ρ)} {start : σ} {c : Context}
    {Q : ρ → Prop} (I : σ → Prop) (hstart : I start)
    (hagain : ∀ x y, Relation.ReflTransGen (Lint.Leads round) (start, c) x → I x.1 →
      Lint.Leads round x y → I y.1)
    (hdone : ∀ (x : σ × Context) r c', I x.1 → round x.1 x.2 = (.ok (.done r), c') → Q r)
    (states : Nat) : Lint.wp (rounds round states start) (fun r _ => Q r) (fun _ => True) c := by
  refine Lint.wp_rounds
    (fun x c' => Relation.ReflTransGen (Lint.Leads round) (start, c) (x, c') ∧ I x)
    (by simp) ?_ states start c ⟨.refl, hstart⟩
  rintro x c' ⟨hreached, hx⟩
  refine Lint.wp_mono (Lint.wp_run (Lint.wp_trivial _)) ?_
  rintro z c'' ⟨hrun, -⟩
  cases z with
  | done r => exact hdone (x, c') r c'' hx hrun
  | again y => exact ⟨hreached.tail hrun, hagain (x, c') (y, c'') hreached hx hrun⟩

structure IsRun (leads : σ → σ → Prop) (start : σ) (xs : List σ) : Prop where
  head : xs.head? = some start
  chain : xs.IsChain leads

namespace IsRun

variable {leads : σ → σ → Prop} {start : σ} {xs : List σ}

theorem forall_mem (h : IsRun leads start xs) {P : σ → Prop} (hstart : P start)
    (hstep : ∀ x y, leads x y → P x → P y) : ∀ x ∈ xs, P x := by
  apply h.chain.induction P xs hstep
  intro hne
  rw [Option.some.inj ((List.head?_eq_some_head hne).symm.trans h.head)]
  exact hstart

theorem increasing (h : IsRun leads start xs) {pos : σ → Int}
    (hstep : ∀ x ∈ xs, ∀ y, leads x y → pos x < pos y) : (xs.map pos).Pairwise (· < ·) := by
  rw [← List.isChain_iff_pairwise, List.isChain_map]
  apply h.chain.imp_of_mem_imp
  intro x y hx _ hxy
  exact hstep x hx y hxy

end IsRun

theorem length_le_of_increasing {ps : List Int} {a b : Int} (hps : ps.Pairwise (· < ·))
    (h : ∀ p ∈ ps, a ≤ p ∧ p < b) : ps.length ≤ (b - a).toNat := by
  induction ps generalizing a with
  | nil => exact Nat.zero_le _
  | cons p ps ih =>
    obtain ⟨hp, hps⟩ := List.pairwise_cons.mp hps
    have hab := h p List.mem_cons_self
    have hle : ps.length ≤ (b - (p + 1)).toNat := by
      apply ih hps
      intro q hq
      exact ⟨hp q hq, (h q (List.mem_cons_of_mem _ hq)).2⟩
    rw [List.length_cons]
    omega

theorem exists_leads_of_mem_dropLast {leads : σ → σ → Prop} {xs : List σ} (h : xs.IsChain leads)
    {x : σ} (hx : x ∈ xs.dropLast) : ∃ y, leads x y := by
  induction xs with
  | nil => cases hx
  | cons z xs ih =>
    cases xs with
    | nil => cases hx
    | cons y ys =>
      obtain ⟨hzy, hchain⟩ := List.isChain_cons_cons.mp h
      rw [List.dropLast_cons_cons] at hx
      rcases List.mem_cons.mp hx with rfl | hx
      · exact ⟨y, hzy⟩
      · exact ih hchain hx

theorem IsRun.length_le {leads : σ → σ → Prop} {start : σ} {xs : List σ} (h : IsRun leads start xs)
    {pos : σ → Int} (hpos : (xs.map pos).Pairwise (· < ·)) {a b : Int}
    (hstep : ∀ x ∈ xs, ∀ y, leads x y → a ≤ pos x ∧ pos x < b) :
    xs.length ≤ (b - a).toNat + 1 := by
  have hlen : (xs.dropLast.map pos).length ≤ (b - a).toNat := by
    apply length_le_of_increasing
    · exact hpos.sublist ((List.dropLast_sublist xs).map pos)
    · intro p hp
      obtain ⟨x, hx, rfl⟩ := List.mem_map.mp hp
      obtain ⟨y, hy⟩ := exists_leads_of_mem_dropLast h.chain hx
      exact hstep x ((List.dropLast_sublist xs).subset hx) y hy
  rw [List.length_map, List.length_dropLast] at hlen
  omega

theorem Lint.rounds_again {round : σ → Lint (Round σ ρ)} {x y : σ × Context}
    (h : Lint.Leads round x y) (n : Nat) :
    rounds round (n + 1) x.1 x.2 = rounds round n y.1 y.2 := by
  rw [rounds, Lint.bind_ok h]

theorem Lint.rounds_last {round : σ → Lint (Round σ ρ)} {x : σ × Context}
    (h : ∀ y, ¬Lint.Leads round x y) (m n : Nat) :
    rounds round (m + 1) x.1 x.2 = rounds round (n + 1) x.1 x.2 := by
  have hbind : ∀ f : Round σ ρ → Lint ρ,
      (round x.1 >>= f) x.2 = ExceptT.bindCont f (round x.1 x.2).1 (round x.1 x.2).2 := fun _ => rfl
  rw [rounds, rounds, hbind, hbind]
  rcases hr : round x.1 x.2 with ⟨e | (y | r), c'⟩
  · rfl
  · exact absurd hr (h (y, c'))
  · rfl

theorem Lint.rounds_eq_of_runs {round : σ → Lint (Round σ ρ)} {x : σ × Context} {k n : Nat}
    (h : ∀ xs, IsRun (Lint.Leads round) x xs → xs.length ≤ k) (hn : k ≤ n) :
    rounds round n x.1 x.2 = rounds round k x.1 x.2 := by
  induction k generalizing x n with
  | zero =>
    have hone := h [x] ⟨rfl, .singleton x⟩
    cases hone
  | succ k ih =>
    obtain ⟨n, rfl⟩ : ∃ m, n = m + 1 := ⟨n - 1, by omega⟩
    by_cases hstep : ∃ y, Lint.Leads round x y
    · obtain ⟨y, hy⟩ := hstep
      rw [Lint.rounds_again hy, Lint.rounds_again hy]
      apply ih _ (by omega)
      rintro xs ⟨hhead, hchain⟩
      have hlen := h (x :: xs) ⟨rfl, ?_⟩
      · rw [List.length_cons] at hlen
        omega
      · cases xs with
        | nil => cases hhead
        | cons z zs =>
          obtain rfl := Option.some.inj hhead
          exact .cons_cons hy hchain
    · exact Lint.rounds_last (not_exists.mp hstep) n k

theorem rounds_endless {round : σ → Scan (Round σ ρ)} (I : σ → Prop)
    (hround : ∀ x, I x → ∃ y, Leads round x y ∧ I y) (states : Nat) (x : σ) (hx : I x) :
    rounds round states x = .error .endless := by
  induction states generalizing x with
  | zero => rfl
  | succ states ih =>
    obtain ⟨y, hy, hI⟩ := hround x hx
    exact (rounds_again hy states).trans (ih y hI)

end CodeAudit
