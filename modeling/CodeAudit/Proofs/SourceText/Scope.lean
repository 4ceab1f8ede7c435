import CodeAudit.Proofs.Lint.Logic
import CodeAudit.Proofs.SourceText.Parts

namespace CodeAudit

open Lint

def Context.InFile (c : Context) : Prop := c.scope = .file

def Lint.KeepsScope (α : Type) (x : Lint α) : Prop :=
  ∀ c : Context, c.file.isSome = true →
    wp x (fun _ c' => c'.file.isSome = true ∧ (c.InFile → c'.InFile))
      (fun c' => c.InFile → c'.InFile) c

theorem Lint.KeepsScope.after {α : Type} {x : Lint α} {c : Context} (h : KeepsScope α x)
    (hfile : c.file.isSome = true) (hc : c.InFile) : (x c).2.InFile := by
  have hx := h c hfile
  unfold wp at hx
  split at hx
  · rename_i he
    rw [he]
    exact hx.2 hc
  · rename_i he
    rw [he]
    exact hx hc

theorem Lint.keepsScope_compositional : Compositional KeepsScope where
  pure _ _ hc := ⟨hc, id⟩
  bind hx hf := by
    intro c hc
    rw [wp_bind]
    refine wp_mono (hx c hc) ?_
    rintro b c' ⟨hc', hscope⟩
    refine wp_imp (hf b c' hc') ?_ ?_
    · rintro a c'' ⟨hc'', hscope'⟩
      exact ⟨hc'', hscope' ∘ hscope⟩
    · intro c'' hscope'
      exact hscope' ∘ hscope
  throw _ _ _ := id
  lift _ c hc := by simp [hc]
  get hf c hc := hf c hc c hc
  setLine _ _ hc := ⟨hc, id⟩
  setOwnIncludes _ hc := ⟨hc, id⟩
  inClass := by
    intro α x hx c hc
    have hinside := hx { c with scope := .classBody } hc
    unfold wp at hinside
    unfold wp Class.inClass
    rcases hrun : x { c with scope := .classBody } with ⟨e | a, c'⟩
    · exact fun _ => rfl
    · rw [hrun] at hinside
      exact ⟨hinside.1, fun _ => rfl⟩

theorem SourceText.check_keepsScope (s : Text) (i : Int) : KeepsScope _ (check s i) :=
  check_of_parts keepsScope_compositional s i

end CodeAudit
