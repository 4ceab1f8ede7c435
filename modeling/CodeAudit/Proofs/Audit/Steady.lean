import CodeAudit.Proofs.Audit.Isolation
import CodeAudit.Stylesheet

namespace CodeAudit

namespace Audit

variable {α β : Type}

/-- After other checks the check gives what it gives as the first one, and it leaves the session to
the next check as they did. -/
def Steady (x : Audit α) : Prop :=
  ∀ t : Session, t.Fresh → (x t).1 = (x {}).1 ∧ (x t).2.Fresh

theorem steady_pure (a : α) : Steady (pure a) := fun _ ht => ⟨rfl, ht⟩

theorem steady_throw (e : Failure) : Steady (throw e : Audit α) := fun _ ht => ⟨rfl, ht⟩

theorem steady_log (level : LogLevel) (text : Text) : Steady (log level text) :=
  fun _ ht => ⟨rfl, ht.ownIncludes, ht.scope⟩

theorem Steady.bind {x : Audit α} {f : α → Audit β} (hx : Steady x) (hf : ∀ a, Steady (f a)) :
    Steady (x >>= f) := by
  intro t ht
  obtain ⟨hsame, hfresh⟩ := hx t ht
  have hfirst := (hx {} Session.fresh_empty).2
  rcases hafter : x t with ⟨r, u⟩
  rcases hempty : x {} with ⟨r', v⟩
  rw [hafter, hempty] at hsame
  rw [hafter] at hfresh
  rw [hempty] at hfirst
  obtain rfl : r = r' := hsame
  cases r with
  | error e =>
    rw [bind_error hafter, bind_error hempty]
    exact ⟨rfl, hfresh⟩
  | ok a =>
    rw [bind_ok hafter, bind_ok hempty]
    exact ⟨(hf a u hfresh).1.trans (hf a v hfirst).1.symm, (hf a u hfresh).2⟩

theorem Steady.attempt {x : Audit α} (hx : Steady x) : Steady (checkFile.attempt x) := by
  intro t ht
  obtain ⟨hsame, hfresh⟩ := hx t ht
  exact ⟨congrArg Except.ok hsame, hfresh⟩

theorem checkFile_steady (home path : Text) (content : Except ReadFailure ByteArray) :
    Steady (checkFile home path content) := by
  intro t ht
  let k : Call := ⟨home, path, content⟩
  exact ⟨k.check_of_fresh ht, k.check_fresh t ht⟩

theorem checkVisit_steady (home : Text) (v : Visit) : Steady (checkVisit home v) := by
  unfold checkVisit
  apply (steady_log _ _).bind
  intro _
  apply (checkFile_steady _ _ _).attempt.bind
  intro r
  split
  · exact steady_pure _
  · exact (steady_log _ _).bind fun _ => steady_pure _
  · exact steady_throw _

theorem checkFolder_steady (home : Text) (vs : List Visit) : Steady (checkFolder home vs) := by
  induction vs with
  | nil => exact steady_pure _
  | cons v vs ih =>
    unfold checkFolder
    have hrest : ∀ reports : List Report, Steady (do return reports ++ (← checkFolder home vs)) :=
      fun _ => ih.bind fun _ => steady_pure _
    split
    · exact (checkVisit_steady home v).bind hrest
    · exact (steady_pure _).bind hrest

end Audit

open Audit

namespace Stylesheet

theorem checkFile_steady (home path : Text) (content : Except ReadFailure ByteArray) :
    Steady (checkFile home path content) := by
  unfold checkFile
  split
  · exact steady_pure _
  · exact (steady_log _ _).bind fun _ => steady_pure _
  · exact steady_throw _

theorem checkFolder_steady (home : Text) (vs : List Visit) : Steady (checkFolder home vs) := by
  induction vs with
  | nil => exact steady_pure _
  | cons v vs ih =>
    unfold checkFolder
    have hrest : ∀ reports : Option (List Report),
        Steady (do return reports.getD [] ++ (← checkFolder home vs)) :=
      fun _ => ih.bind fun _ => steady_pure _
    split
    · exact (checkFile_steady home v.path v.content).bind hrest
    · exact (steady_pure _).bind hrest

end Stylesheet

end CodeAudit
