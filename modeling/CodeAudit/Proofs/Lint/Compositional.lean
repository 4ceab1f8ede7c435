import CodeAudit.Proofs.Scan.Confined

namespace CodeAudit.Lint

structure Compositional (R : (α : Type) → Lint α → Prop) : Prop where
  pure {α : Type} (a : α) : R α (Pure.pure a)
  bind {α β : Type} {x : Lint β} {f : β → Lint α} (hx : R β x) (hf : ∀ b, R α (f b)) :
    R α (x >>= f)
  throw {α : Type} {e : Failure} (he : e.OfText) : R α (MonadExcept.throw e)
  lift {α : Type} {x : Scan α} (hx : x.Confined) : R α (liftM x)
  get {α : Type} {f : Context → Lint α} (hf : ∀ c, c.file.isSome = true → R α (f c)) :
    R α (MonadState.get >>= f)
  setLine (line : Int) : R Unit (CodeAudit.setLine line)
  setOwnIncludes : R Unit (modify fun c => { c with ownIncludes := true })
  inClass {α : Type} {x : Lint α} (hx : R α x) : R α (Class.inClass x)

namespace Compositional

variable {R : (α : Type) → Lint α → Prop} (h : Compositional R) {α : Type} {s : Text} {i : Int}

theorem ite (_ : Compositional R) {p : Prop} [Decidable p] {x y : Lint α} (hx : R α x)
    (hy : R α y) : R α (if p then x else y) := by
  split
  · exact hx
  · exact hy

include h

theorem malformed : R α (MonadExcept.throw .malformed) := h.throw Failure.malformed_ofText

theorem currentLine : R Int CodeAudit.currentLine := h.get fun _ _ => h.pure _

theorem ite_throw {p : Prop} [Decidable p] {f : Unit → Lint α} (hf : R α (f ())) :
    R α (if p then MonadExcept.throw .malformed >>= f else f ()) :=
  h.ite (h.bind h.malformed fun _ => hf) hf

theorem ite_throw' {p : Prop} [Decidable p] {f : Unit → Lint α} (hf : R α (f ())) :
    R α (if p then f () else MonadExcept.throw .malformed >>= f) :=
  h.ite hf (h.bind h.malformed fun _ => hf)

theorem rounds {σ ρ : Type} {round : σ → Lint (Round σ ρ)} (hround : ∀ x, R _ (round x))
    (states : Nat) (x : σ) : R ρ (CodeAudit.rounds round states x) := by
  induction states generalizing x with
  | zero => exact h.throw (Failure.ofText_of_mem (by decide))
  | succ states ih =>
    apply h.bind (hround x)
    intro z
    cases z with
    | done r => exact h.pure r
    | again y => exact ih y

theorem first {fs : List Form} (hfs : ∀ f ∈ fs, R _ (f s i)) : R _ (Form.first fs s i) := by
  induction fs with
  | nil => exact h.pure _
  | cons f fs ih =>
    apply h.bind (h.bind (hfs f List.mem_cons_self) fun _ => h.pure _)
    intro found
    cases found with
    | none => exact ih fun g hg => hfs g (List.mem_cons_of_mem _ hg)
    | some x => exact h.pure _

theorem ofSpan (f : Text → Int → Option Span) : R _ (Form.ofSpan f s i) := h.pure _

theorem ofScan {f : Text → Int → Scan (Option Span)} (hf : (f s i).Confined) :
    R _ (Form.ofScan f s i) := h.bind (h.lift hf) fun _ => h.pure _

end Compositional

end CodeAudit.Lint
